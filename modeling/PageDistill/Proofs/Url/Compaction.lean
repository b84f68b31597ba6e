import Mathlib.Data.List.Forall2
import PageDistill.Proofs.Url.References
import PageDistill.Url.Shorten

/-!
# Shortening Loses Nothing

Every URL of a tree can be read back from its short form and the table of
references.

A pass rewrites a tree by recursion on the tree, while what it does to a URL depends
on the URLs before it only through the table. `shortenSources` is the same pass over a
plain list of URLs. `shorten_sources` says that the two agree: the URLs of the
rewritten tree, in the order of a walk, are what the list pass makes of the URLs of the
tree. Everything after that is an induction on a list, and no proof about references
looks at the tree again.

Along the list the table stays canonical, only grows, and takes up the key of each URL
that needs one. A short form says which entry of the table it was made with, and an
entry is never changed, so the form of an early URL is still right for the final
table.

The key of a media file is what stands before the last slash of the whole URL, while
whether the file counts as one is decided on the path. The cut is harmless: a web URL
has a slash, and the key, the slash and the rest are the URL again, whatever the rest
holds.

## Main definitions

* `sources`: The URLs of a tree in the order of a walk.
* `key?`: The key that a URL needs in the table.
* `ShortForm`: What a URL may become.
* `shortenSources`: A pass over a list of URLs.
* `isReadable`: Whether a pass gets past a source.
* `Unreadable`: What is wrong with a source that ends a pass.
* `Lossless`: URLs that can be read back from their short forms.

## Theorems

* `shorten_sources`: A pass over a tree is the pass over its URLs.
* `ShortForm.mono`: A short form stays right when the table grows.
* `ShortForm.expand_eq`: A short form of a web URL expands to the URL.
* `shortenUrl_ok`: What one step of a pass does.
* `shortenSources_ok`: What a whole pass over a list does.
* `shortenAll_result`: How a pass ends.
* `shortenAll_ok_iff`: When a pass comes to its end.
* `shortenAll_error`: Where it ends otherwise.
* `lossless_of_forms`: Short forms in a table that took up the keys are enough.
* `shortenAll_lossless`: A pass that comes to its end loses nothing.
-/

namespace PageDistill

namespace Url

open Markdown (Node Cell)
open Dom (AttrValue)

/-- The URL that a node holds itself: the destination of a link, or where an image or
    a video comes from. -/
def sourceOf? : Node → Option AttrValue
  | .link href _ => some (.text href)
  | .image src _ => some (.text src)
  | .video src _ _ => some src
  | _ => none

/-- The URLs of a tree in the order of a walk. -/
def sources (nodes : List Node) : List AttrValue := (Markdown.walk nodes).filterMap sourceOf?

/-- The key that a URL needs in the table: the directory of a media file, the whole of
    any other long URL, and none for the rest. -/
def key? (url : String) : Option String :=
  if !isWebUrl url.toList then none
  else if isMediaPath (path url.toList) then
    some (String.ofList ((cutAtLast '/' url.toList).1.getD []))
  else if mostParts < (Text.splitOn '/' url.toList).length then some url
  else none

/-- What a URL may become in terms of a table: it stays, or it becomes the token of its
    key, or the token of its directory with the name of the file. -/
inductive ShortForm (refs : ReferenceMap) : String → String → Prop where
  | kept (url : String) (hkey : key? url = none) : ShortForm refs url url
  | token (url short : String) (hkey : key? url = some url) (hmem : (url, short) ∈ refs) :
      ShortForm refs url short
  | file (directory leaf short : String) (hleaf : '/' ∉ leaf.toList)
      (hkey : key? (directory ++ "/" ++ leaf) = some directory)
      (hmem : (directory, short) ∈ refs) :
      ShortForm refs (directory ++ "/" ++ leaf) (short ++ "://" ++ leaf)

/-- A pass over a list of URLs. -/
def shortenSources (state : Shortening) : List AttrValue → List AttrValue × Shortening
  | [] => ([], state)
  | source :: rest =>
    let (source, state) := shortenSource state source
    let (rest, state) := shortenSources state rest
    (source :: rest, state)

theorem shortenSources_append (state : Shortening) (front back : List AttrValue) :
    shortenSources state (front ++ back) =
      ((shortenSources state front).1 ++ (shortenSources (shortenSources state front).2 back).1,
        (shortenSources (shortenSources state front).2 back).2) := by
  induction front generalizing state with
  | nil => rfl
  | cons source rest ih =>
      simp only [List.cons_append, shortenSources, ih]

mutual

/-- A pass over a node is the pass over the URLs of its walk. -/
theorem shortenNode_sources (state : Shortening) (node : Node) :
    shortenSources state (node.walk.filterMap sourceOf?) =
      ((shortenNode state node).1.walk.filterMap sourceOf?, (shortenNode state node).2) := by
  cases node with
  | emphasis style content => exact shorten_sources state content
  | link href content =>
      -- The address of a link comes before those in its text.
      have hrest := shorten_sources (shortenUrl state href).2 content
      simp only [sources] at hrest
      simp only [Node.walk, List.filterMap_cons, sourceOf?, shortenSources, shortenSource, hrest,
        shortenNode]
  | heading level content => exact shorten_sources state content
  | image src alt => rfl
  | video src poster controls =>
      simp only [Node.walk, List.filterMap_cons, List.filterMap_nil, sourceOf?, shortenSources,
        shortenNode]
  | list ordered items => exact shortenItems_sources state items
  | table rows colIds => exact shortenRows_sources state rows
  | quote content => exact shorten_sources state content
  | semantic element content => exact shorten_sources state content
  | listItem content => exact shorten_sources state content
  | text content => rfl
  | code content language inline => rfl
  | metadata entries => rfl
  | custom payload => rfl
  | tableRow cells => rfl
  | tableCell cell => rfl

/-- A pass over a tree is the pass over its URLs. -/
theorem shorten_sources (state : Shortening) (nodes : List Node) :
    shortenSources state (sources nodes) =
      (sources (shorten state nodes).1, (shorten state nodes).2) := by
  cases nodes with
  | nil => rfl
  | cons node nodes =>
      have hnode := shortenNode_sources state node
      have hrest := shorten_sources (shortenNode state node).2 nodes
      simp only [sources] at hrest ⊢
      simp only [Markdown.walk, List.filterMap_append, shortenSources_append, hnode, hrest, shorten]

theorem shortenItems_sources (state : Shortening) (items : List (List Node)) :
    shortenSources state ((Markdown.walkItems items).filterMap sourceOf?) =
      ((Markdown.walkItems (shortenItems state items).1).filterMap sourceOf?,
        (shortenItems state items).2) := by
  cases items with
  | nil => rfl
  | cons item items =>
      have hitem := shorten_sources state item
      have hrest := shortenItems_sources (shorten state item).2 items
      simp only [sources] at hitem
      simp only [Markdown.walkItems, List.filterMap_append, shortenSources_append, hitem, hrest,
        shortenItems]

theorem shortenRows_sources (state : Shortening) (rows : List (List Cell)) :
    shortenSources state ((Markdown.walkRows rows).filterMap sourceOf?) =
      ((Markdown.walkRows (shortenRows state rows).1).filterMap sourceOf?,
        (shortenRows state rows).2) := by
  cases rows with
  | nil => rfl
  | cons row rows =>
      have hrow := shortenRow_sources state row
      have hrest := shortenRows_sources (shortenRow state row).2 rows
      simp only [Markdown.walkRows, List.filterMap_append, shortenSources_append, hrow, hrest,
        shortenRows]

theorem shortenRow_sources (state : Shortening) (cells : List Cell) :
    shortenSources state ((Markdown.walkRow cells).filterMap sourceOf?) =
      ((Markdown.walkRow (shortenRow state cells).1).filterMap sourceOf?,
        (shortenRow state cells).2) := by
  cases cells with
  | nil => rfl
  | cons cell cells =>
      cases cell with
      | plain text marks => exact shortenRow_sources state cells
      | rich content marks =>
          have hcontent := shorten_sources state content
          have hrest := shortenRow_sources (shorten state content).2 cells
          simp only [sources] at hcontent
          simp only [Markdown.walkRow, List.filterMap_append, shortenSources_append, hcontent,
            hrest, shortenRow]

end

/-- A short form stays right when the table grows. -/
theorem ShortForm.mono {refs refs' : ReferenceMap} (hle : refs <+: refs') {url short : String}
    (h : ShortForm refs url short) : ShortForm refs' url short := by
  cases h with
  | kept _ hkey => exact .kept url hkey
  | token _ _ hkey hmem => exact .token url short hkey (hle.subset hmem)
  | file directory leaf token hleaf hkey hmem =>
      exact .file directory leaf token hleaf hkey (hle.subset hmem)

/-- A web URL begins with its scheme and two slashes. -/
theorem eq_append_of_isWebUrl (url : List Char) (h : isWebUrl url = true) :
    ∃ rest, url = "http://".toList ++ rest ∨ url = "https://".toList ++ rest := by
  simp only [isWebUrl, webPrefixes, List.any_cons, List.any_nil, Bool.or_false, Bool.or_eq_true,
    List.isPrefixOf_iff_prefix] at h
  rcases h with ⟨rest, hrest⟩ | ⟨rest, hrest⟩
  · exact ⟨rest, Or.inl hrest.symm⟩
  · exact ⟨rest, Or.inr hrest.symm⟩

/-- A web URL has a slash, so it can be cut at the last one. -/
theorem cutAtLast_of_isWebUrl (url : List Char) (h : isWebUrl url = true) :
    ∃ directory leaf, cutAtLast '/' url = (some directory, leaf) := by
  cases hcut : cutAtLast '/' url with
  | mk before after =>
      cases before with
      | some directory => exact ⟨directory, after, rfl⟩
      | none =>
          have hslash : '/' ∈ url := by
            rcases eq_append_of_isWebUrl url h with ⟨rest, hrest | hrest⟩
            · rw [hrest]
              exact List.mem_append_left _ (by decide)
            · rw [hrest]
              exact List.mem_append_left _ (by decide)
          exact absurd hslash (cutAtLast_eq_none '/' url after hcut).2

/-- A web URL does not begin like a token. -/
theorem head_takeWhile_of_isWebUrl (url : List Char) (h : isWebUrl url = true) :
    (url.takeWhile (· != ':')).head? ≠ some 'r' := by
  rcases eq_append_of_isWebUrl url h with ⟨rest, hrest | hrest⟩
  · rw [hrest]
    simp
  · rw [hrest]
    simp

/-- A short form of a web URL expands to the URL. -/
theorem ShortForm.expand_eq {refs : ReferenceMap} (hrefs : refs.Canonical) {url short : String}
    (hweb : isWebUrl url.toList = true) (h : ShortForm refs url short) :
    refs.expand short = url := by
  cases h with
  | kept _ _ =>
      exact hrefs.expand_of_not_token url (head_takeWhile_of_isWebUrl url.toList hweb)
  | token _ _ _ hmem => exact hrefs.expand_token url short hmem
  | file directory leaf token _ _ hmem =>
      exact hrefs.expand_file directory token leaf hmem

/-- A step after a fault changes nothing. -/
theorem shortenSource_of_fault (state : Shortening) (source : AttrValue)
    (h : state.fault.isSome = true) : shortenSource state source = (source, state) := by
  cases source with
  | text url => simp [shortenSource, shortenUrl, h]
  | list items => simp [shortenSource, h]

/-- A fault stays until the end of a pass. -/
theorem shortenSources_of_fault (state : Shortening) (srcs : List AttrValue)
    (h : state.fault.isSome = true) : shortenSources state srcs = (srcs, state) := by
  induction srcs with
  | nil => rfl
  | cons source rest ih => simp only [shortenSources, shortenSource_of_fault state source h, ih]

/-- What becomes of a web URL in terms of a table: its key is interned, and the short form is made
    with the token of that key. -/
theorem refer_spec (refs : ReferenceMap) (url : String) (hweb : isWebUrl url.toList = true) :
    (refer refs url.toList (path url.toList)).2 = refs.internAll (key? url).toList ∧
      ShortForm (refs.internAll (key? url).toList) url
        (refer refs url.toList (path url.toList)).1 := by
  by_cases hmedia : isMediaPath (path url.toList) = true
  -- A file is told by its directory, which is the key.
  · rcases cutAtLast_of_isWebUrl url.toList hweb with ⟨directory, leaf, hcut⟩
    rcases cutAtLast_eq_some '/' url.toList directory leaf hcut with ⟨heq, hleaf⟩
    have hkey : key? url = some (String.ofList directory) := by
      simp [key?, hweb, hmedia, hcut]
    have hurl : url = String.ofList directory ++ "/" ++ String.ofList leaf := by
      rw [← String.toList_inj]
      simp [String.toList_append, heq]
    have hshort : ∀ token : String, String.ofList (token.toList ++ "://".toList ++ leaf) =
        token ++ "://" ++ String.ofList leaf := by
      intro token
      rw [← String.toList_inj]
      simp [String.toList_append]
    simp only [refer, hmedia, if_true, hcut, Option.getD_some, hkey, Option.toList_some,
      ReferenceMap.internAll, List.foldl_cons, List.foldl_nil, hshort, true_and]
    have hform : ShortForm (refs.intern (String.ofList directory)).2
        (String.ofList directory ++ "/" ++ String.ofList leaf)
        ((refs.intern (String.ofList directory)).1 ++ "://" ++ String.ofList leaf) :=
      .file _ _ _ (by rwa [String.toList_ofList]) (hurl ▸ hkey) (refs.mem_intern _)
    rwa [← hurl] at hform
  · rw [Bool.not_eq_true] at hmedia
    -- Any other address is a key itself, if it is long enough to be replaced.
    by_cases hlong : mostParts < (Text.splitOn '/' url.toList).length
    · have hkey : key? url = some url := by simp [key?, hweb, hmedia, hlong]
      simp only [refer, hmedia, if_pos hlong, String.ofList_toList, hkey, Option.toList_some,
        ReferenceMap.internAll, List.foldl_cons, List.foldl_nil, Bool.false_eq_true, if_false,
        true_and]
      exact ShortForm.token url _ hkey (refs.mem_intern url)
    · have hkey : key? url = none := by simp [key?, hweb, hmedia, hlong]
      simp only [refer, hmedia, if_neg hlong, String.ofList_toList, hkey, Option.toList_none,
        ReferenceMap.internAll, List.foldl_nil, Bool.false_eq_true, if_false, true_and]
      exact ShortForm.kept url hkey

/-- What one step of a pass does when no fault comes up. -/
theorem shortenUrl_ok (refs : ReferenceMap) (url : String)
    (h : (shortenUrl ⟨refs, none⟩ url).2.fault = none) :
    (shortenUrl ⟨refs, none⟩ url).2 = ⟨refs.internAll (key? url).toList, none⟩ ∧
      ShortForm (refs.internAll (key? url).toList) url (shortenUrl ⟨refs, none⟩ url).1 := by
  by_cases hweb : isWebUrl url.toList = true
  · cases hfault : authorityFault? (authority url.toList) with
    | some fault => simp [shortenUrl, hweb, path?, hfault] at h
    | none =>
        rcases refer_spec refs url hweb with ⟨hrefs, hform⟩
        simp only [shortenUrl, hweb, path?, hfault, Option.isSome_none, Bool.false_eq_true,
          Bool.not_true, or_self, if_false, ← hrefs, true_and]
        rwa [← hrefs] at hform
  · rw [Bool.not_eq_true] at hweb
    have hkey : key? url = none := by simp [key?, hweb]
    simp only [shortenUrl, hweb, hkey, Bool.not_false, or_true, if_true, Option.toList_none,
      ReferenceMap.internAll, List.foldl_nil, true_and]
    exact ShortForm.kept url hkey

/-- What a whole pass over a list does when no fault comes up: every source is a text,
    the table takes up their keys in order, and every text gets a short form that is
    right for the table at the end. -/
theorem shortenSources_ok (refs : ReferenceMap) (srcs : List AttrValue)
    (h : (shortenSources ⟨refs, none⟩ srcs).2.fault = none) :
    ∃ urls shorts : List String,
      srcs = urls.map .text ∧ (shortenSources ⟨refs, none⟩ srcs).1 = shorts.map .text ∧
        (shortenSources ⟨refs, none⟩ srcs).2 = ⟨refs.internAll (urls.filterMap key?), none⟩ ∧
        List.Forall₂ (ShortForm (refs.internAll (urls.filterMap key?))) urls shorts := by
  induction srcs generalizing refs with
  | nil => exact ⟨[], [], rfl, rfl, rfl, .nil⟩
  | cons source rest ih =>
      cases source with
      | list items =>
          -- A list is a fault, and a fault stays.
          rw [shortenSources, shortenSource] at h
          simp only [Option.isSome_none, Bool.false_eq_true, if_false] at h
          rw [shortenSources_of_fault _ rest rfl] at h
          exact absurd h (by simp)
      | text url =>
          simp only [shortenSources, shortenSource] at h ⊢
          have hstep : (shortenUrl ⟨refs, none⟩ url).2.fault = none := by
            cases hf : (shortenUrl ⟨refs, none⟩ url).2.fault with
            | none => rfl
            | some fault =>
                rw [shortenSources_of_fault _ rest (by rw [hf]; rfl), hf] at h
                exact absurd h (by simp)
          rcases shortenUrl_ok refs url hstep with ⟨hstate, hform⟩
          rw [hstate] at h ⊢
          rcases ih _ h with ⟨urls, shorts, hurls, hshorts, hfinal, hforms⟩
          have hall : refs.internAll ((url :: urls).filterMap key?) =
              (refs.internAll (key? url).toList).internAll (urls.filterMap key?) := by
            rw [← ReferenceMap.internAll_append, List.filterMap_cons]
            cases key? url <;> rfl
          refine ⟨url :: urls, (shortenUrl ⟨refs, none⟩ url).1 :: shorts, ?_, ?_, ?_, ?_⟩
          · rw [hurls, List.map_cons]
          · rw [hshorts, List.map_cons]
          · rw [hfinal, hall]
          · rw [hall]
            exact .cons (hform.mono (ReferenceMap.isPrefix_internAll _ _)) hforms

/-- A step interns a key or leaves the table alone. -/
theorem shortenSource_canonical {state : Shortening} (source : AttrValue)
    (h : state.refs.Canonical) : (shortenSource state source).2.refs.Canonical := by
  cases source with
  | list items =>
      rw [shortenSource]
      split <;> exact h
  | text url =>
      change (shortenUrl state url).2.refs.Canonical
      unfold shortenUrl
      by_cases hkept : state.fault.isSome = true ∨ (!isWebUrl url.toList) = true
      · rw [if_pos hkept]
        exact h
      · rw [if_neg hkept]
        rw [not_or, Bool.not_eq_true', Bool.not_eq_false] at hkept
        unfold path?
        cases authorityFault? (authority url.toList) with
        | some fault => exact h
        | none =>
            simp only
            -- All that is done to the table is to look up keys and add those that are new.
            rw [(refer_spec state.refs url hkept.2).1]
            exact h.internAll _

theorem shortenSources_canonical {state : Shortening} (srcs : List AttrValue)
    (h : state.refs.Canonical) : (shortenSources state srcs).2.refs.Canonical := by
  induction srcs generalizing state with
  | nil => exact h
  | cons source rest ih => exact ih (shortenSource_canonical source h)

/-- Whether a pass gets past a source: it is a text, and if that is a web URL, then its
    authority can be read. -/
def isReadable : AttrValue → Bool
  | .text url => !isWebUrl url.toList || (authorityFault? (authority url.toList)).isNone
  | .list _ => false

theorem shortenSource_fault (refs : ReferenceMap) (source : AttrValue) :
    (shortenSource ⟨refs, none⟩ source).2.fault = none ↔ isReadable source = true := by
  cases source with
  | list items => simp [shortenSource, isReadable]
  | text url =>
      by_cases hweb : isWebUrl url.toList = true
      · cases hfault : authorityFault? (authority url.toList) <;>
          simp [shortenSource, shortenUrl, path?, isReadable, hweb, hfault]
      · rw [Bool.not_eq_true] at hweb
        simp [shortenSource, shortenUrl, isReadable, hweb]

theorem shortenSources_fault (refs : ReferenceMap) (srcs : List AttrValue) :
    (shortenSources ⟨refs, none⟩ srcs).2.fault = none ↔
      ∀ source ∈ srcs, isReadable source = true := by
  induction srcs generalizing refs with
  | nil => simp [shortenSources]
  | cons source rest ih =>
      rw [List.forall_mem_cons, ← shortenSource_fault refs source, shortenSources]
      cases hstate : (shortenSource ⟨refs, none⟩ source).2 with
      | mk refs' fault =>
          cases fault with
          | none => simp only [hstate, ih, true_and]
          | some fault => simp [hstate, shortenSources_of_fault]

/-- The error with which a pass ends early. -/
def PassFault.error : PassFault → ConversionError
  | .badUrl fault => .badUrl fault
  | .urlIsList => .urlIsList

/-- A pass ends early with the error of the fault that the recursion met, if it met one. -/
theorem shortenAll_result (refs : ReferenceMap) (nodes : List Node) :
    (shortenAll refs nodes).outcome.result =
      match (shorten ⟨refs, none⟩ nodes).2.fault with
      | none => .ok ()
      | some fault => .error fault.error := by
  unfold shortenAll
  simp only
  cases (shorten ⟨refs, none⟩ nodes).2.fault with
  | none => rfl
  | some fault => cases fault <;> rfl

/-- A pass comes to its end exactly when it gets past every source of the tree. -/
theorem shortenAll_ok_iff (refs : ReferenceMap) (nodes : List Node) :
    (shortenAll refs nodes).outcome.result = .ok () ↔
      ∀ source ∈ sources nodes, isReadable source = true := by
  have htree := congrArg (fun pass => pass.2.fault) (shorten_sources ⟨refs, none⟩ nodes)
  rw [← shortenSources_fault refs, htree, shortenAll_result]
  cases (shorten ⟨refs, none⟩ nodes).2.fault with
  | none => exact iff_of_true rfl rfl
  | some fault => exact iff_of_false nofun nofun

/-- What is wrong with a source that ends a pass. -/
inductive Unreadable : AttrValue → PassFault → Prop where
  | badUrl (url : String) (fault : Fault) (hweb : isWebUrl url.toList = true)
      (hfault : authorityFault? (authority url.toList) = some fault) :
      Unreadable (.text url) (.badUrl fault)
  | list (items : List String) : Unreadable (.list items) .urlIsList

theorem shortenSource_unreadable (refs : ReferenceMap) (source : AttrValue) (fault : PassFault)
    (h : (shortenSource ⟨refs, none⟩ source).2.fault = some fault) : Unreadable source fault := by
  cases source with
  | list items =>
      rw [← Option.some.inj h]
      exact .list items
  | text url =>
      by_cases hweb : isWebUrl url.toList = true
      · cases hfault : authorityFault? (authority url.toList) with
        | none => simp [shortenSource, shortenUrl, path?, hweb, hfault] at h
        | some bad =>
            have hbad : some (.badUrl bad) = some fault := by
              simpa [shortenSource, shortenUrl, path?, hweb, hfault] using h
            rw [← Option.some.inj hbad]
            exact .badUrl url bad hweb hfault
      · rw [Bool.not_eq_true] at hweb
        simp [shortenSource, shortenUrl, hweb] at h

/-- The fault of a pass is that of the first source that it does not get past. -/
theorem shortenSources_unreadable (refs : ReferenceMap) (srcs : List AttrValue) (fault : PassFault)
    (h : (shortenSources ⟨refs, none⟩ srcs).2.fault = some fault) :
    ∃ source ∈ srcs, Unreadable source fault := by
  induction srcs generalizing refs with
  | nil => exact nomatch h
  | cons source rest ih =>
      rw [shortenSources] at h
      cases hstate : (shortenSource ⟨refs, none⟩ source).2 with
      | mk refs' first =>
          -- Either this address is the one at fault, or the pass goes on without fault.
          cases first with
          | none =>
              simp only [hstate] at h
              rcases ih refs' h with ⟨other, hother, hfault⟩
              exact ⟨other, List.mem_cons_of_mem source hother, hfault⟩
          | some first =>
              simp only [hstate, shortenSources_of_fault ⟨refs', some first⟩ rest rfl] at h
              have hfirst := shortenSource_unreadable refs source first (by rw [hstate])
              rw [Option.some.inj h] at hfirst
              exact ⟨source, List.mem_cons_self, hfirst⟩

/-- A pass over a tree that ends early ends at one of its sources. -/
theorem shortenAll_error (refs : ReferenceMap) (nodes : List Node) (error : ConversionError)
    (h : (shortenAll refs nodes).outcome.result = .error error) :
    ∃ source ∈ sources nodes, ∃ fault, Unreadable source fault ∧ error = fault.error := by
  have htree := congrArg (fun pass => pass.2.fault) (shorten_sources ⟨refs, none⟩ nodes)
  rw [shortenAll_result] at h
  cases hf : (shorten ⟨refs, none⟩ nodes).2.fault with
  | none =>
      rw [hf] at h
      exact nomatch h
  | some fault =>
      rw [hf] at h
      rcases shortenSources_unreadable refs _ fault (htree.trans hf) with ⟨source, hmem, hfault⟩
      exact ⟨source, hmem, fault, hfault, (Except.error.inj h).symm⟩

/-- A pass keeps a table canonical, whether or not it comes to its end. -/
theorem shortenAll_canonical (refs : ReferenceMap) (nodes : List Node) (hrefs : refs.Canonical) :
    (shortenAll refs nodes).refs.Canonical := by
  have htree := congrArg (fun pass => pass.2.refs) (shorten_sources ⟨refs, none⟩ nodes)
  rw [shortenAll_refs, ← htree]
  exact shortenSources_canonical (sources nodes) hrefs

/-- What it means that URLs can be read back from their short forms and a table that
    grew out of an old one. The old table stands in front, the new keys stand in the order
    in which they were first needed, and every URL has one of its short forms. A web URL
    is what its short form expands to, and different web URLs have different forms. -/
structure Lossless (old new : ReferenceMap) (urls shorts : List String) : Prop where
  grown : old <+: new
  canonical : new.Canonical
  ordered : new.keys = (old.keys ++ urls.filterMap key?).eraseDups
  forms : List.Forall₂ (ShortForm new) urls shorts
  expands : ∀ url short, (url, short) ∈ urls.zip shorts → isWebUrl url.toList = true →
    new.expand short = url
  distinct : ∀ url short url' short', (url, short) ∈ urls.zip shorts →
    (url', short') ∈ urls.zip shorts → isWebUrl url.toList = true →
    isWebUrl url'.toList = true → url ≠ url' → short ≠ short'

/-- URLs with their short forms in a table that took up their keys are not lost. -/
theorem lossless_of_forms (refs : ReferenceMap) (urls shorts : List String)
    (hrefs : refs.Canonical)
    (hforms : List.Forall₂ (ShortForm (refs.internAll (urls.filterMap key?))) urls shorts) :
    Lossless refs (refs.internAll (urls.filterMap key?)) urls shorts := by
  have hcanonical : (refs.internAll (urls.filterMap key?)).Canonical := hrefs.internAll _
  have hexpand : ∀ url short, (url, short) ∈ urls.zip shorts → isWebUrl url.toList = true →
      (refs.internAll (urls.filterMap key?)).expand short = url := by
    intro url short hmem hweb
    exact (List.forall₂_zip hforms hmem).expand_eq hcanonical hweb
  refine ⟨refs.isPrefix_internAll _, hcanonical, refs.keys_internAll _ hrefs.distinct, hforms,
    hexpand, ?_⟩
  intro url short url' short' hmem hmem' hweb hweb' hne heq
  -- One text has one expansion, so the two URLs would be the same.
  refine hne ?_
  rw [← hexpand url short hmem hweb, ← hexpand url' short' hmem' hweb', heq]

/-- A pass that comes to its end loses nothing. It starts from any canonical table, the
    empty one among them, and goes over any list of nodes; a single node is a list of
    one. -/
theorem shortenAll_lossless (refs : ReferenceMap) (nodes : List Node) (hrefs : refs.Canonical)
    (hok : (shortenAll refs nodes).outcome.result = .ok ()) :
    ∃ urls shorts : List String,
      sources nodes = urls.map .text ∧
        sources (shortenAll refs nodes).nodes = shorts.map .text ∧
        Lossless refs (shortenAll refs nodes).refs urls shorts := by
  have htree := shorten_sources ⟨refs, none⟩ nodes
  have hsources : (shortenSources ⟨refs, none⟩ (sources nodes)).2.fault = none :=
    (shortenSources_fault refs _).mpr ((shortenAll_ok_iff refs nodes).mp hok)
  -- The pass over the tree is the pass over its addresses, one after another.
  rcases shortenSources_ok refs (sources nodes) hsources with
    ⟨urls, shorts, hurls, hshorts, hstate, hforms⟩
  rw [htree] at hshorts hstate
  refine ⟨urls, shorts, hurls, by rw [shortenAll_nodes]; exact hshorts, ?_⟩
  have hfinal : (shortenAll refs nodes).refs = refs.internAll (urls.filterMap key?) := by
    rw [shortenAll_refs]
    exact congrArg Shortening.refs hstate
  rw [hfinal]
  exact lossless_of_forms refs urls shorts hrefs hforms

/-- A table with the directory of a picture in it, and a tree with that picture, a long link, a film
    whose cut falls into its query, and a link that looks like a token. -/
theorem shortenAll_lossless_media :
    let refs : ReferenceMap := [("http://a.b/media", "ref0")]
    let nodes : List Node :=
      [.quote [.link "http://a.b/x/y/z?q=/w" [.text "go"]],
        .image "http://a.b/media/pic.PNG" none,
        .table [[.rich [.video (.text "https://h/v/clip.mp4?x=/end") none none] .none]] none,
        .link "ref0" []]
    refs.Canonical ∧ (shortenAll refs nodes).outcome.result = .ok () ∧
      ∃ urls shorts : List String,
        sources nodes = urls.map .text ∧
          sources (shortenAll refs nodes).nodes = shorts.map .text ∧
          Lossless refs (shortenAll refs nodes).refs urls shorts := by
  intro refs nodes
  have hrefs : refs.Canonical := ReferenceMap.canonical_nil.intern "http://a.b/media"
  have hok : (shortenAll refs nodes).outcome.result = .ok () :=
    (shortenAll_ok_iff refs nodes).mpr (by decide)
  exact ⟨hrefs, hok, shortenAll_lossless refs nodes hrefs hok⟩

end Url

end PageDistill
