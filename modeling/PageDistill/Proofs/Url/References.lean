import PageDistill.Url.ReferenceMap

/-!
# References Can Be Read Back

Why a table of references says which key a token stands for.

A table is made by interning keys one after another, so its tokens are `ref0`,
`ref1` and so on in order, and no key comes twice. `Canonical` states both. The
first part makes the tokens different from one another, because the decimal text
of a number determines the number, and this is what lets a token be read
backwards. Interning keeps a table canonical, and keeps every entry where it is.

`expand` reads a shortened URL backwards. It looks at what stands before the first
colon. A token holds no colon, so a bare token is found whole, and the name of a
file after a token does not get in the way. The scheme of a web URL is not a token,
so a URL that was never shortened is left alone.

## Main definitions

* `keys`: The keys of a table, in order.
* `Canonical`: Tables that came from interning keys.
* `keyOf?`: The key that a token stands for.
* `expand`: A shortened URL written out.

## Theorems

* `tokenOf_injective`: Different numbers have different tokens.
* `Canonical.key_unique`: A token stands for one key.
* `Canonical.intern`: Interning keeps a table canonical.
* `isPrefix_intern`: Interning keeps every entry where it is.
* `mem_intern`: After interning a key, the table has it with its token.
* `keys_intern`: A new key goes to the end.
* `Canonical.expand_token`: A bare token is written out as its key.
* `Canonical.expand_file`: A token with a file name is written out as a path.
* `Canonical.expand_of_not_token`: A URL that begins with no token is left alone.
-/

namespace PageDistill

namespace ReferenceMap

/-- The keys of a table, in order. -/
def keys (m : ReferenceMap) : List String := m.map Prod.fst

/-- A table that came from interning keys: the entry with a number has the token
    with that number, and no key comes twice. -/
structure Canonical (m : ReferenceMap) : Prop where
  numbered : ∀ i key token, m[i]? = some (key, token) → token = tokenOf i
  distinct : m.keys.Nodup

/-- The key that a token stands for. -/
def keyOf? (m : ReferenceMap) (token : String) : Option String :=
  (m.find? fun entry => entry.2 == token).map Prod.fst

/-- A shortened URL written out: a token by itself as its key, and a token with the
    name of a file as the path of that file. Any other text is left alone. -/
def expand (m : ReferenceMap) (url : String) : String :=
  match m.keyOf? (String.ofList (url.toList.takeWhile (· != ':'))) with
  | none => url
  | some key =>
    match url.toList.dropWhile (· != ':') with
    | [] => key
    | ':' :: '/' :: '/' :: leaf => key ++ "/" ++ String.ofList leaf
    | _ => url

theorem tokenOf_toList (n : Nat) :
    (tokenOf n).toList = 'r' :: 'e' :: 'f' :: Number.naturalText n := by
  simp only [tokenOf, String.toList_append, String.toList_ofList]
  rfl

/-- Different numbers have different tokens. The digits after `ref` are those of
    the number, and reading them gives it back. -/
theorem tokenOf_injective (m n : Nat) (h : tokenOf m = tokenOf n) : m = n := by
  have hlist : Number.naturalText m = Number.naturalText n := by
    have hcongr := congrArg String.toList h
    rw [tokenOf_toList, tokenOf_toList] at hcongr
    simpa only [List.cons.injEq, true_and] using hcongr
  have hread := congrArg (fun ds => Nat.ofDigitChars 10 ds 0) hlist
  simpa only [Number.ofDigitChars_naturalText] using hread

/-- A token holds letters and digits only, so no colon. -/
theorem ne_colon_of_mem_tokenOf (n : Nat) (c : Char) (h : c ∈ (tokenOf n).toList) : c ≠ ':' := by
  rw [tokenOf_toList] at h
  simp only [List.mem_cons] at h
  rcases h with rfl | rfl | rfl | hdigit
  · decide
  · decide
  · decide
  · intro hc
    rw [hc] at hdigit
    exact Number.not_mem_naturalText n (by decide) hdigit

theorem canonical_nil : Canonical [] where
  numbered i key token h := by simp at h
  distinct := List.nodup_nil

/-- In a canonical table every token is one of the numbered ones. -/
theorem Canonical.token_of_mem {m : ReferenceMap} (h : m.Canonical) (key token : String)
    (hmem : (key, token) ∈ m) : ∃ i, m[i]? = some (key, token) ∧ token = tokenOf i := by
  rcases List.mem_iff_getElem?.mp hmem with ⟨i, hi⟩
  exact ⟨i, hi, h.numbered i key token hi⟩

/-- A token stands for one key: two entries with one token have one number, so they
    are the same entry. -/
theorem Canonical.key_unique {m : ReferenceMap} (h : m.Canonical) (key other token : String)
    (hkey : (key, token) ∈ m) (hother : (other, token) ∈ m) : key = other := by
  rcases h.token_of_mem key token hkey with ⟨i, hi, hti⟩
  rcases h.token_of_mem other token hother with ⟨j, hj, htj⟩
  have hij : i = j := tokenOf_injective i j (hti ▸ htj)
  rw [hij, hj] at hi
  simp only [Option.some.injEq, Prod.mk.injEq, and_true] at hi
  exact hi.symm

/-- The key of a token in a canonical table is found. -/
theorem Canonical.keyOf?_of_mem {m : ReferenceMap} (h : m.Canonical) (key token : String)
    (hmem : (key, token) ∈ m) : m.keyOf? token = some key := by
  rw [keyOf?]
  cases hfind : m.find? fun entry => entry.2 == token with
  | none =>
      rw [List.find?_eq_none] at hfind
      exact absurd (hfind (key, token) hmem) (by simp)
  | some entry =>
      have hentry := List.mem_of_find?_eq_some hfind
      have htoken : entry.2 = token := by simpa using List.find?_some hfind
      rw [Option.map_some, Option.some.injEq]
      exact h.key_unique entry.1 key token (htoken ▸ hentry) hmem

theorem keyOf?_eq_none (m : ReferenceMap) (token : String)
    (h : ∀ entry ∈ m, entry.2 ≠ token) : m.keyOf? token = none := by
  rw [keyOf?, Option.map_eq_none_iff, List.find?_eq_none]
  intro entry hentry
  simpa using h entry hentry

/-- The two results of interning: a known key keeps the table, and a new one goes to the end with
    the next token. -/
theorem intern_cases (m : ReferenceMap) (key : String) :
    (∃ token, Entries.lookup? m key = some token ∧ m.intern key = (token, m)) ∨
      (key ∉ m.keys ∧ m.intern key = (m.nextToken, m ++ [(key, m.nextToken)])) := by
  cases hl : Entries.lookup? m key with
  | some token => exact Or.inl ⟨token, rfl, intern_of_lookup? m key token hl⟩
  | none =>
      refine Or.inr ⟨?_, by rw [intern, hl]⟩
      exact Entries.not_mem_of_lookup?_eq_none m key hl

/-- Interning keeps every entry where it is. -/
theorem isPrefix_intern (m : ReferenceMap) (key : String) : m <+: (m.intern key).2 := by
  rcases intern_cases m key with ⟨token, _, heq⟩ | ⟨_, heq⟩
  · simp only [heq, List.prefix_refl]
  · rw [heq]
    exact List.prefix_append m _

/-- After interning a key, the table has it with its token. -/
theorem mem_intern (m : ReferenceMap) (key : String) :
    (key, (m.intern key).1) ∈ (m.intern key).2 :=
  Entries.mem_of_lookup? _ key _ (lookup?_intern m key)

/-- A new key goes to the end, and a known one stays where it is. -/
theorem keys_intern (m : ReferenceMap) (key : String) :
    (m.intern key).2.keys = if key ∈ m.keys then m.keys else m.keys ++ [key] := by
  rcases intern_cases m key with ⟨token, hl, heq⟩ | ⟨hnew, heq⟩
  · have hmem : key ∈ m.keys :=
      List.mem_map.mpr ⟨(key, token), Entries.mem_of_lookup? m key token hl, rfl⟩
    rw [heq, if_pos hmem]
  · rw [heq, if_neg hnew]
    simp only [keys, List.map_append, List.map_cons, List.map_nil]

/-- Interning keeps a table canonical. -/
theorem Canonical.intern {m : ReferenceMap} (h : m.Canonical) (key : String) :
    (m.intern key).2.Canonical := by
  rcases intern_cases m key with ⟨token, _, heq⟩ | ⟨hnew, heq⟩
  · rw [heq]
    exact h
  · rw [heq]
    refine ⟨?_, ?_⟩
    · intro i k t hi
      rcases Nat.lt_trichotomy i m.length with hlt | heq | hgt
      · rw [List.getElem?_append_left hlt] at hi
        exact h.numbered i k t hi
      · -- The new entry stands at the number its token was made from.
        rw [heq, List.getElem?_append_right (Nat.le_refl _), Nat.sub_self] at hi
        simp only [List.getElem?_cons_zero, Option.some.injEq, Prod.mk.injEq] at hi
        rw [heq, ← hi.2, nextToken]
      · rw [List.getElem?_append_right (Nat.le_of_lt hgt)] at hi
        rw [List.getElem?_eq_none (by simp only [List.length_cons, List.length_nil]; omega)] at hi
        exact absurd hi (by simp)
    · simp only [keys, List.map_append, List.map_cons, List.map_nil]
      rw [List.nodup_append]
      refine ⟨h.distinct, by simp, ?_⟩
      intro a ha b hb hab
      rw [List.mem_singleton] at hb
      exact hnew (hb ▸ hab ▸ ha)

/-- A table after interning keys one after another. -/
def internAll (m : ReferenceMap) (wanted : List String) : ReferenceMap :=
  wanted.foldl (fun refs key => (refs.intern key).2) m

theorem internAll_append (m : ReferenceMap) (front back : List String) :
    m.internAll (front ++ back) = (m.internAll front).internAll back :=
  List.foldl_append

theorem Canonical.internAll {m : ReferenceMap} (h : m.Canonical) (wanted : List String) :
    (m.internAll wanted).Canonical := by
  induction wanted generalizing m with
  | nil => exact h
  | cons key rest ih => exact ih (h.intern key)

theorem isPrefix_internAll (m : ReferenceMap) (wanted : List String) :
    m <+: m.internAll wanted := by
  induction wanted generalizing m with
  | nil => exact List.prefix_refl m
  | cons key rest ih => exact (m.isPrefix_intern key).trans (ih (m.intern key).2)

theorem eraseDups_of_nodup (l : List String) (h : l.Nodup) : l.eraseDups = l := by
  induction l with
  | nil => rfl
  | cons a rest ih =>
      rw [List.nodup_cons] at h
      have hfilter : rest.filter (fun b => !b == a) = rest := by
        rw [List.filter_eq_self]
        intro b hb
        have hne : b ≠ a := fun hab => h.1 (hab ▸ hb)
        simpa using hne
      rw [List.eraseDups_cons, hfilter, ih h.2]

/-- Keys stand in the order in which they first came up. -/
theorem keys_internAll (m : ReferenceMap) (wanted : List String) (h : m.keys.Nodup) :
    (m.internAll wanted).keys = (m.keys ++ wanted).eraseDups := by
  induction wanted generalizing m with
  | nil => rw [List.append_nil, eraseDups_of_nodup m.keys h]; rfl
  | cons key rest ih =>
      -- One key is added if it is new, and the next ones are added to what is there then.
      have hstep : (m.intern key).2.keys.Nodup ∧
          ((m.intern key).2.keys ++ rest).eraseDups = (m.keys ++ key :: rest).eraseDups := by
        rw [keys_intern]
        by_cases hmem : key ∈ m.keys
        · rw [if_pos hmem]
          refine ⟨h, ?_⟩
          rw [List.eraseDups_append, List.eraseDups_append]
          simp [List.removeAll, hmem]
        · rw [if_neg hmem]
          refine ⟨?_, by rw [List.append_assoc, List.singleton_append]⟩
          rw [List.nodup_append]
          refine ⟨h, by simp, ?_⟩
          intro a ha b hb hab
          rw [List.mem_singleton] at hb
          exact hmem (hb ▸ hab ▸ ha)
      exact (ih (m.intern key).2 hstep.1).trans hstep.2

/-- What stands before the first colon of a text that begins with a token and then ends, or goes on
    with a colon. -/
theorem takeWhile_tokenOf (n : Nat) (rest : List Char) (h : rest = [] ∨ rest.head? = some ':') :
    ((tokenOf n).toList ++ rest).takeWhile (· != ':') = (tokenOf n).toList ∧
      ((tokenOf n).toList ++ rest).dropWhile (· != ':') = rest := by
  have hall : ∀ c ∈ (tokenOf n).toList, (c != ':') = true := fun c hc => by
    simpa using ne_colon_of_mem_tokenOf n c hc
  rw [List.takeWhile_append_of_pos hall, List.dropWhile_append_of_pos hall]
  rcases h with rfl | hhead
  · simp
  · cases rest with
    | nil => simp at hhead
    | cons c others =>
        simp only [List.head?_cons, Option.some.injEq] at hhead
        simp [hhead]

/-- A bare token is written out as its key. -/
theorem Canonical.expand_token {m : ReferenceMap} (h : m.Canonical) (key token : String)
    (hmem : (key, token) ∈ m) : m.expand token = key := by
  rcases h.token_of_mem key token hmem with ⟨i, _, rfl⟩
  have hcut := takeWhile_tokenOf i [] (Or.inl rfl)
  rw [List.append_nil] at hcut
  rw [expand, hcut.1, hcut.2, String.ofList_toList, h.keyOf?_of_mem key _ hmem]

/-- A token with the name of a file is written out as the path of the file. -/
theorem Canonical.expand_file {m : ReferenceMap} (h : m.Canonical) (key token leaf : String)
    (hmem : (key, token) ∈ m) : m.expand (token ++ "://" ++ leaf) = key ++ "/" ++ leaf := by
  rcases h.token_of_mem key token hmem with ⟨i, _, rfl⟩
  have hcut := takeWhile_tokenOf i (':' :: '/' :: '/' :: leaf.toList) (Or.inr rfl)
  have hlist : (tokenOf i ++ "://" ++ leaf).toList =
      (tokenOf i).toList ++ ':' :: '/' :: '/' :: leaf.toList := by
    simp [String.toList_append]
  rw [expand, hlist, hcut.1, hcut.2, String.ofList_toList, h.keyOf?_of_mem key _ hmem]
  simp only [String.ofList_toList]

/-- A URL is left alone when the text before its first colon does not begin like a
    token. -/
theorem Canonical.expand_of_not_token {m : ReferenceMap} (h : m.Canonical) (url : String)
    (hhead : (url.toList.takeWhile (· != ':')).head? ≠ some 'r') : m.expand url = url := by
  have hnone : m.keyOf? (String.ofList (url.toList.takeWhile (· != ':'))) = none := by
    refine keyOf?_eq_none m _ ?_
    intro entry hentry htoken
    rcases h.token_of_mem entry.1 entry.2 hentry with ⟨i, _, hi⟩
    rw [hi] at htoken
    have hlist := congrArg String.toList htoken
    rw [tokenOf_toList, String.toList_ofList] at hlist
    rw [← hlist] at hhead
    exact hhead rfl
  rw [expand, hnone]

end ReferenceMap

end PageDistill
