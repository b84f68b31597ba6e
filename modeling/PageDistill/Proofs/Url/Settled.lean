import PageDistill.Proofs.Markdown.Asked
import PageDistill.Proofs.Markdown.Rewriting
import PageDistill.Proofs.Outcomes
import PageDistill.Proofs.Url.Compaction

/-!
# A Pass Settles a Tree

After one pass there is nothing left to shorten.

A pass changes the addresses of links, images and videos and nothing else. What it puts in
their place is a token of the table, or a token with `://` and the name of a file, and a token
of the usual form begins with `ref`. So no result of a pass is a web URL, except where the URL
was short enough to stay, and a second pass has nothing to do. With a table from elsewhere this
depends on its tokens: a token that is a web URL itself is put into the tree as it is, and the
next pass takes it for one more address. `Neutral` names the tables without such tokens.

A rendering visits the tree by a recursion of its own. That it comes to no address that should
have been shortened is told by a hook that would stop it there.

## Main definitions

* `isLong`: The URLs that a pass shortens.
* `holdsLong`: A node whose own address is one of them.
* `ReferenceMap.Neutral`: Tables whose tokens do not begin web URLs.
* `Settled`: What a pass leaves of a tree and a table.

## Theorems

* `ReferenceMap.Neutral.internAll`: Interning makes harmless tokens.
* `ReferenceMap.Canonical.neutral`: A table that came from interning keys is neutral.
* `ShortForm.isSettled`: A short form needs no shortening.
* `shorten_of_settled`: A pass over a tree without long URLs does nothing.
* `shortenAll_settled`: What is known of a pass that comes to its end.
-/

namespace PageDistill

namespace ReferenceMap

open Url (isWebUrl webPrefixes)

/-- No token of the table begins a web URL, nor would with `://` after it. -/
def Neutral (m : ReferenceMap) : Prop :=
  ∀ entry ∈ m, isWebUrl (entry.2.toList ++ "://".toList) = false

instance (m : ReferenceMap) : Decidable m.Neutral := by
  unfold Neutral
  infer_instance

/-- A token of the usual form begins with the letter of `ref`. -/
theorem isWebUrl_tokenOf (n : Nat) :
    isWebUrl ((tokenOf n).toList ++ "://".toList) = false := by
  rw [tokenOf_toList]
  simp [isWebUrl, webPrefixes, List.isPrefixOf]

/-- Interning makes tokens of the usual form only, so a neutral table stays neutral. -/
theorem Neutral.intern {m : ReferenceMap} (h : m.Neutral) (key : String) :
    (m.intern key).2.Neutral := by
  rcases intern_cases m key with ⟨token, _, heq⟩ | ⟨_, heq⟩
  · rw [heq]
    exact h
  · rw [heq]
    intro entry hentry
    rcases List.mem_append.mp hentry with hold | hnew
    · exact h entry hold
    · rw [List.mem_singleton.mp hnew]
      exact isWebUrl_tokenOf m.length

theorem Neutral.internAll {m : ReferenceMap} (h : m.Neutral) (wanted : List String) :
    (m.internAll wanted).Neutral := by
  induction wanted generalizing m with
  | nil => exact h
  | cons key rest ih => exact ih (h.intern key)

/-- A table that came from interning keys is neutral. -/
theorem Canonical.neutral {m : ReferenceMap} (h : m.Canonical) : m.Neutral := by
  intro entry hentry
  rcases h.token_of_mem entry.1 entry.2 hentry with ⟨i, _, hi⟩
  rw [hi]
  exact isWebUrl_tokenOf i

end ReferenceMap

namespace Url

open Markdown (Node Cell rewrite rewriteItems rewriteRows rewriteRow walk walkItems walkRows walkRow
  renderContent)
open Dom (AttrValue)

/-- The URLs that a pass shortens: web URLs of media files, and those of more than four parts. -/
def isLong (url : String) : Bool :=
  isWebUrl url.toList &&
    (isMediaPath (path url.toList) || mostParts < (Text.splitOn '/' url.toList).length)

/-- Whether the address of a node itself is one that a pass shortens. -/
def holdsLong (node : Node) : Bool :=
  match sourceOf? node with
  | some (.text url) => isLong url
  | _ => false

/-- A source that a pass gets past and leaves as it is. -/
def isSettled : AttrValue → Bool
  | .text url => isReadable (.text url) && !isLong url
  | .list _ => false

theorem key?_eq_none_iff (url : String) : key? url = none ↔ isLong url = false := by
  unfold key? isLong
  cases isWebUrl url.toList with
  | false => simp
  | true =>
      cases isMediaPath (path url.toList) with
      | true => simp
      | false => simp

/-- A settled URL stays, and the state with it. -/
theorem shortenUrl_of_settled (state : Shortening) (url : String)
    (h : isSettled (.text url) = true) : shortenUrl state url = (url, state) := by
  by_cases hskip : state.fault.isSome ∨ !isWebUrl url.toList
  · rw [shortenUrl, if_pos hskip]
  · simp only [not_or, Bool.not_eq_true, Bool.not_eq_eq_eq_not, Bool.not_true] at hskip
    rcases hskip with ⟨_, hweb⟩
    simp only [isSettled, isReadable, isLong, hweb, Bool.not_true, Bool.false_or, Bool.true_and,
      Bool.and_eq_true, Option.isNone_iff_eq_none, Bool.not_eq_true', Bool.or_eq_false_iff,
      decide_eq_false_iff_not] at h
    rcases h with ⟨hread, hmedia, hparts⟩
    simp [shortenUrl, path?, refer, *]

theorem shortenSource_of_settled (state : Shortening) (source : AttrValue)
    (h : isSettled source = true) : shortenSource state source = (source, state) := by
  cases source with
  | list items => exact absurd h (by simp [isSettled])
  | text url => rw [shortenSource, shortenUrl_of_settled state url h]

/-- Whether the address of a node itself is settled, if it has one. -/
def settledAt (node : Node) : Bool := (sourceOf? node).all isSettled

mutual

theorem shortenNode_of_settled (state : Shortening) (node : Node)
    (h : ∀ d ∈ node.walk, settledAt d = true) : shortenNode state node = (node, state) := by
  -- An address that is settled is not touched, and neither is anything below.
  cases node with
  | emphasis style content =>
      rw [Node.walk, List.forall_mem_cons] at h
      rw [shortenNode, shorten_of_settled state content h.2]
  | link href content =>
      rw [Node.walk, List.forall_mem_cons] at h
      simp only [shortenNode, shortenUrl_of_settled state href h.1,
        shorten_of_settled state content h.2]
  | heading level content =>
      rw [Node.walk, List.forall_mem_cons] at h
      rw [shortenNode, shorten_of_settled state content h.2]
  | image src alt =>
      simp only [shortenNode, shortenUrl_of_settled state src (h _ List.mem_cons_self)]
  | video src poster controls =>
      simp only [shortenNode, shortenSource_of_settled state src (h _ List.mem_cons_self)]
  | list ordered items =>
      rw [Node.walk, List.forall_mem_cons] at h
      rw [shortenNode, shortenItems_of_settled state items h.2]
  | table rows colIds =>
      rw [Node.walk, List.forall_mem_cons] at h
      rw [shortenNode, shortenRows_of_settled state rows h.2]
  | quote content =>
      rw [Node.walk, List.forall_mem_cons] at h
      rw [shortenNode, shorten_of_settled state content h.2]
  | semantic element content =>
      rw [Node.walk, List.forall_mem_cons] at h
      rw [shortenNode, shorten_of_settled state content h.2]
  | listItem content =>
      rw [Node.walk, List.forall_mem_cons] at h
      rw [shortenNode, shorten_of_settled state content h.2]
  | _ => rfl

/-- A pass over a tree with nothing to shorten does nothing. -/
theorem shorten_of_settled (state : Shortening) (nodes : List Node)
    (h : ∀ d ∈ walk nodes, settledAt d = true) : shorten state nodes = (nodes, state) := by
  cases nodes with
  | nil => rfl
  | cons node rest =>
      rw [walk, List.forall_mem_append] at h
      simp only [shorten, shortenNode_of_settled state node h.1,
        shorten_of_settled state rest h.2]

theorem shortenItems_of_settled (state : Shortening) (items : List (List Node))
    (h : ∀ d ∈ walkItems items, settledAt d = true) :
    shortenItems state items = (items, state) := by
  cases items with
  | nil => rfl
  | cons item items =>
      rw [walkItems, List.forall_mem_append] at h
      simp only [shortenItems, shorten_of_settled state item h.1,
        shortenItems_of_settled state items h.2]

theorem shortenRows_of_settled (state : Shortening) (rows : List (List Cell))
    (h : ∀ d ∈ walkRows rows, settledAt d = true) : shortenRows state rows = (rows, state) := by
  cases rows with
  | nil => rfl
  | cons row rows =>
      rw [walkRows, List.forall_mem_append] at h
      simp only [shortenRows, shortenRow_of_settled state row h.1,
        shortenRows_of_settled state rows h.2]

theorem shortenRow_of_settled (state : Shortening) (cells : List Cell)
    (h : ∀ d ∈ walkRow cells, settledAt d = true) : shortenRow state cells = (cells, state) := by
  cases cells with
  | nil => rfl
  | cons cell cells =>
      cases cell with
      | plain text marks => rw [shortenRow, shortenRow_of_settled state cells h]
      | rich content marks =>
          rw [walkRow, List.forall_mem_append] at h
          simp only [shortenRow, shorten_of_settled state content h.1,
            shortenRow_of_settled state cells h.2]

end

/-- A longer text begins as a shorter one does. -/
theorem isWebUrl_append (text rest : List Char) (h : isWebUrl text = true) :
    isWebUrl (text ++ rest) = true := by
  rcases eq_append_of_isWebUrl text h with ⟨tail, rfl | rfl⟩
  · simp [isWebUrl, webPrefixes]
  · simp [isWebUrl, webPrefixes]

/-- The first `://` of a text is where the scheme ends, so what follows it is of no matter. -/
theorem prefix_of_prefix_append (scheme text rest : List Char) (hscheme : ':' ∉ scheme)
    (h : scheme ++ "://".toList <+: text ++ "://".toList ++ rest) :
    scheme ++ "://".toList <+: text ++ "://".toList := by
  induction scheme generalizing text with
  | nil =>
      rcases text with _ | ⟨a, _ | ⟨b, _ | ⟨c, text⟩⟩⟩ <;> simp at h ⊢
      exact h
  | cons c scheme ih =>
      cases text with
      | nil => simp_all
      | cons d text =>
          simp only [List.cons_append, List.cons_prefix_cons] at h ⊢
          exact ⟨h.1, ih text (fun hmem => hscheme (List.mem_cons_of_mem c hmem)) h.2⟩

/-- A token that begins no web URL begins none with the name of a file either. -/
theorem isWebUrl_file (token leaf : List Char) (h : isWebUrl (token ++ "://".toList) = false) :
    isWebUrl (token ++ "://".toList ++ leaf) = false := by
  rw [← Bool.not_eq_true] at h ⊢
  intro hweb
  refine h ?_
  rcases eq_append_of_isWebUrl _ hweb with ⟨tail, htail | htail⟩
  · rcases prefix_of_prefix_append "http".toList token leaf (by decide) ⟨tail, htail.symm⟩ with
      ⟨rest, hrest⟩
    rw [← hrest]
    exact isWebUrl_append _ rest rfl
  · rcases prefix_of_prefix_append "https".toList token leaf (by decide) ⟨tail, htail.symm⟩ with
      ⟨rest, hrest⟩
    rw [← hrest]
    exact isWebUrl_append _ rest rfl

/-- What is no web URL is nothing for a pass. -/
theorem isSettled_of_not_web (url : String) (h : isWebUrl url.toList = false) :
    isSettled (.text url) = true := by
  simp [isSettled, isReadable, isLong, h]

/-- A short form needs no shortening: it is a URL that was settled before, or it begins with a
    token, and tokens of a neutral table begin no web URL. -/
theorem ShortForm.isSettled {refs : ReferenceMap} (hrefs : refs.Neutral) {url short : String}
    (hread : isReadable (.text url) = true) (h : ShortForm refs url short) :
    isSettled (.text short) = true := by
  cases h with
  | kept _ hkey => simp [Url.isSettled, hread, (key?_eq_none_iff url).mp hkey]
  | token _ _ _ hmem =>
      refine isSettled_of_not_web short ?_
      rw [← Bool.not_eq_true]
      intro hweb
      have hlonger := isWebUrl_append _ "://".toList hweb
      rw [hrefs (url, short) hmem] at hlonger
      exact Bool.false_ne_true hlonger
  | file directory leaf token _ _ hmem =>
      refine isSettled_of_not_web _ ?_
      simp only [String.toList_append]
      exact isWebUrl_file token.toList leaf.toList (hrefs (directory, token) hmem)

/-- A URL that is no web URL has one short form, itself. -/
theorem ShortForm.eq_of_not_web {refs : ReferenceMap} {url short : String}
    (hweb : isWebUrl url.toList = false) (h : ShortForm refs url short) : short = url := by
  have hnone : key? url = none := by simp [key?, hweb]
  cases h with
  | kept _ _ => rfl
  | token _ _ hkey _ => exact absurd (hnone.symm.trans hkey) (by simp)
  | file _ _ _ _ hkey _ => exact absurd (hnone.symm.trans hkey) (by simp)

/-- What a pass leaves of a tree and a table: nothing to shorten. No node of the walk holds a
    long URL, and a rendering comes to none; another pass with the table it left, or with an
    empty one, comes to its end and changes neither the tree nor its table. -/
structure Settled (pass : Pass) : Prop where
  walked : ∀ node ∈ walk pass.nodes, holdsLong node = false
  rendered : ∀ (o : Options) (indent : Int) (fault : HookFault), o.overrideNode = none →
    renderContent (o.refusing holdsLong fault) indent pass.nodes =
      renderContent o indent pass.nodes
  again : (shortenAll pass.refs pass.nodes).nodes = pass.nodes ∧
    (shortenAll pass.refs pass.nodes).refs = pass.refs ∧
    (shortenAll pass.refs pass.nodes).outcome.result = .ok ()
  afresh : (shortenAll [] pass.nodes).nodes = pass.nodes ∧
    (shortenAll [] pass.nodes).refs = [] ∧
    (shortenAll [] pass.nodes).outcome.result = .ok ()

/-- A pass over settled sources gives back what it was given. -/
theorem shortenAll_of_settled (refs : ReferenceMap) (nodes : List Node)
    (h : ∀ node ∈ walk nodes, settledAt node = true) :
    (shortenAll refs nodes).nodes = nodes ∧ (shortenAll refs nodes).refs = refs ∧
      (shortenAll refs nodes).outcome.result = .ok () := by
  simp only [shortenAll, shorten_of_settled ⟨refs, none⟩ nodes h, true_and]
  rfl

/-- A settled address is not long. -/
theorem holdsLong_of_settledAt (node : Node) (h : settledAt node = true) :
    holdsLong node = false := by
  unfold settledAt at h
  unfold holdsLong
  cases hsource : sourceOf? node with
  | none => rfl
  | some source =>
      rw [hsource, Option.all_some] at h
      cases source with
      | list items => rfl
      | text url =>
          simp only [isSettled, Bool.and_eq_true, Bool.not_eq_true'] at h
          exact h.2

/-- It is enough to look at the sources of the tree. -/
theorem Settled.of_sources (pass : Pass)
    (h : ∀ source ∈ sources pass.nodes, isSettled source = true) : Settled pass := by
  have hat : ∀ node ∈ walk pass.nodes, settledAt node = true := by
    intro node hnode
    unfold settledAt
    cases hsource : sourceOf? node with
    | none => rfl
    | some source => exact h source (List.mem_filterMap.mpr ⟨node, hnode, hsource⟩)
  have hlong : ∀ node ∈ walk pass.nodes, holdsLong node = false := fun node hnode =>
    holdsLong_of_settledAt node (hat node hnode)
  exact ⟨hlong,
    fun o indent fault ho => Markdown.renderContent_refusing ho indent pass.nodes hlong,
    shortenAll_of_settled pass.refs pass.nodes hat, shortenAll_of_settled [] pass.nodes hat⟩

/-- The sources of a tree and what became of them, in step. -/
theorem shortenAll_forms (refs : ReferenceMap) (nodes : List Node)
    (hok : (shortenAll refs nodes).outcome.result = .ok ()) :
    ∃ urls shorts : List String,
      sources nodes = urls.map .text ∧ sources (shortenAll refs nodes).nodes = shorts.map .text ∧
        List.Forall₂ (ShortForm (refs.internAll (urls.filterMap key?))) urls shorts := by
  have hfault := (shortenSources_fault refs _).mpr ((shortenAll_ok_iff refs nodes).mp hok)
  rcases shortenSources_ok refs (sources nodes) hfault with
    ⟨urls, shorts, hurls, hshorts, _, hforms⟩
  rw [shorten_sources] at hshorts
  exact ⟨urls, shorts, hurls, by rw [shortenAll_nodes]; exact hshorts, hforms⟩

/-- A pass that comes to its end changes addresses only, and of these only web URLs. With a
    neutral table, such as any that came from interning keys, it leaves nothing to shorten. -/
theorem shortenAll_settled (refs : ReferenceMap) (nodes : List Node)
    (hok : (shortenAll refs nodes).outcome.result = .ok ()) :
    rewrite withoutAddress (shortenAll refs nodes).nodes = rewrite withoutAddress nodes ∧
      (∃ urls shorts : List String,
        sources nodes = urls.map .text ∧ sources (shortenAll refs nodes).nodes = shorts.map .text ∧
          List.Forall₂ (fun url short => isWebUrl url.toList = false → short = url) urls shorts) ∧
      (refs.Neutral → Settled (shortenAll refs nodes)) := by
  rcases shortenAll_forms refs nodes hok with ⟨urls, shorts, hurls, hshorts, hforms⟩
  have hread : ∀ url ∈ urls, isReadable (.text url) = true := fun url hurl =>
    (shortenAll_ok_iff refs nodes).mp hok _ (by rw [hurls]; exact List.mem_map_of_mem hurl)
  refine ⟨?_, ⟨urls, shorts, hurls, hshorts, ?_⟩, fun hrefs => Settled.of_sources _ ?_⟩
  · rw [shortenAll_nodes]
    exact rewrite_shorten _ nodes
  · refine hforms.imp ?_
    intro url short hform hweb
    exact hform.eq_of_not_web hweb
  · rw [hshorts, List.forall_mem_map]
    intro short hshort
    rcases Traced.exists_of_mem_right hforms hshort with ⟨url, hurl, hform⟩
    exact hform.isSettled (hrefs.internAll _) (hread url hurl)

/-- A table from elsewhere with a token of its own, a picture inside a link, a film in a cell, a
    link that is long, and one that is not. -/
theorem shortenAll_settled_media :
    let refs : ReferenceMap := [("http://a.b/media", "cdn")]
    let nodes : List Node :=
      [.quote [.link "http://a.b/x/y/z" [.image "http://a.b/media/pic.PNG" none]],
        .table [[.rich [.video (.text "https://h/v/clip.mp4") none none] .none]] none,
        .list false [[.link "http://a.b/x" []], [.link "../up" []]]]
    (shortenAll refs nodes).outcome.result = .ok () ∧ refs.Neutral ∧
      rewrite withoutAddress (shortenAll refs nodes).nodes = rewrite withoutAddress nodes ∧
      Settled (shortenAll refs nodes) := by
  intro refs nodes
  have hok : (shortenAll refs nodes).outcome.result = .ok () :=
    (shortenAll_ok_iff refs nodes).mpr (by decide)
  have hrefs : refs.Neutral := by decide
  have hall := shortenAll_settled refs nodes hok
  exact ⟨hok, hrefs, hall.1, hall.2.2 hrefs⟩

/-- A table with a URL for a token does not settle a tree: the URL stands in the tree after the
    pass, and both the next pass and one with an empty table intern it. -/
theorem shortenAll_unsettled :
    let refs : ReferenceMap := [("http://a.b/1/2/3", "http://c.d/4/5/6")]
    let nodes : List Node := [.link "http://a.b/1/2/3" [.text "x"]]
    (shortenAll refs nodes).outcome.result = .ok () ∧
      (∃ node ∈ walk (shortenAll refs nodes).nodes, holdsLong node = true) ∧
      (shortenAll (shortenAll refs nodes).refs (shortenAll refs nodes).nodes).refs ≠
        (shortenAll refs nodes).refs ∧
      (shortenAll [] (shortenAll refs nodes).nodes).refs ≠ [] := by
  intro refs nodes
  have hnodes : (shortenAll refs nodes).nodes = [.link "http://c.d/4/5/6" [.text "x"]] := rfl
  refine ⟨(shortenAll_ok_iff refs nodes).mpr (by decide), ?_, ?_, ?_⟩
  · rw [hnodes]
    exact ⟨_, List.mem_cons_self, by decide⟩
  · decide
  · decide

end Url

end PageDistill
