import PageDistill.Proofs.Markdown.Rewriting
import PageDistill.Proofs.Markdown.Unbroken
import PageDistill.Proofs.Text.PercentDecoding

/-!
# Where URLs Are Written

What the strings of a page can do in the places where a URL is written.

A URL is written in five places: in the short and in the long form of a link, for an image, for a
film, and for the poster of a film. Links and images percent encode it first. Then it consists of
safe characters, none of which ends an attribute, a cell or a line, and the rules around it leave it
as it is. So a tree is written like the tree with its URLs encoded (`layOut_encodeAddress`), and
each destination is found in the text, between its marks (`infix_layOut`). Parentheses are safe in a
URL, so they are written as they are.

Films and their posters do not take part in that. Their URLs are written as the page has them
(`renderContent_film_raw`). So all that is written for URLs is safe exactly if the films have safe
URLs from the start.

## Main definitions

* `UrlPlace`: The places in which a URL is written, each with what stands around it.
* `Destination`, `destinations`: A URL in its place, and all of them in a tree, in the order of the
  text.
* `encodeAddress`: A node with its URL encoded, if that is what the rule for it does.

## Theorems

* `Destination.isSafe_iff`: Which destinations are safe.
* `layOut_encodeAddress`: A tree is written like the tree with its URLs encoded.
* `infix_layOut`: A destination on one line stands in the text.
* `renderContent_destinations`: All of this for what is written for a tree.
* `renderContent_film_raw`: A film whose URLs are not safe.
-/

namespace PageDistill

namespace Text

/-- A safe character is ASCII, it is not blank, and it is none of the marks that end an attribute or
    a cell, or that escape. -/
theorem harmless_of_urlSafe {c : Char} (h : urlSafe c = true) :
    c.toNat < 128 ∧ isBlank c = false ∧ c ∉ "\"<>|\\".toList := by
  have hbounds := bounds_of_urlSafe h
  refine ⟨hbounds.2, ?_, fun hmark => ?_⟩
  · rw [Bool.eq_false_iff]
    intro hblank
    simp only [isBlank, Bool.or_eq_true, Bool.and_eq_true, decide_eq_true_eq, beq_iff_eq] at hblank
    omega
  · have hmarks : ∀ d ∈ "\"<>|\\".toList, (!urlSafe d) = true := List.all_eq_true.mp (by decide)
    have hunsafe := hmarks c hmark
    rw [h] at hunsafe
    exact absurd hunsafe Bool.false_ne_true

theorem percentEncode_eq_nil_iff {s : List Char} : percentEncode s = [] ↔ s = [] := by
  refine ⟨fun h => ?_, fun h => by rw [h]; rfl⟩
  cases s with
  | nil => rfl
  | cons c rest =>
      have hcode : percentCode c ≠ [] := by
        unfold percentCode
        split
        · exact List.cons_ne_nil _ _
        · cases hbytes : String.utf8EncodeChar c with
          | nil => exact absurd hbytes (utf8EncodeChar_ne_nil c)
          | cons b bytes => exact List.cons_ne_nil _ _
      rw [percentEncode_cons] at h
      exact absurd (List.append_eq_nil_iff.mp h).1 hcode

/-- Encoding what is encoded changes nothing. -/
theorem percentEncode_percentEncode (s : List Char) :
    percentEncode (percentEncode s) = percentEncode s :=
  percentEncode_of_safe _ (urlSafe_of_mem_percentEncode s)

end Text

namespace Markdown

/-- The places in which a URL is written: a link in its short or its long form, an image, a film and
    the poster of a film. -/
inductive UrlPlace where
  | label
  | anchor
  | image
  | film
  | poster
  deriving DecidableEq

namespace UrlPlace

/-- What stands before the URL. -/
def before : UrlPlace → List Char
  | label => [']', '(']
  | anchor => "<a href=\"".toList
  | image => "](".toList
  | film => "![Video](".toList
  | poster => "![Poster](".toList

/-- What stands after the URL. -/
def after : UrlPlace → List Char
  | anchor => "\">".toList
  | _ => [')']

/-- Whether the URL belongs to a film. -/
def ofFilm : UrlPlace → Bool
  | film | poster => true
  | _ => false

end UrlPlace

/-- A URL in its place: the URL as the page has it. -/
structure Destination where
  place : UrlPlace
  address : List Char
  deriving DecidableEq

namespace Destination

/-- The URL as it is written: encoded, unless it belongs to a film. -/
def written (d : Destination) : List Char :=
  if d.place.ofFilm then d.address else Text.percentEncode d.address

/-- The URL between what stands around it. -/
def text (d : Destination) : List Char := d.place.before ++ d.written ++ d.place.after

/-- Nothing but safe characters is written for the URL. -/
def IsSafe (d : Destination) : Prop := ∀ c ∈ d.written, Text.urlSafe c = true

/-- URLs of links and images are safe when they are written, whatever they hold. A URL of a film is
    so only if it is safe from the start. -/
theorem isSafe_iff (d : Destination) :
    d.IsSafe ↔ (d.place.ofFilm = true → ∀ c ∈ d.address, Text.urlSafe c = true) := by
  unfold IsSafe written
  by_cases hfilm : d.place.ofFilm = true
  · rw [if_pos hfilm]
    exact ⟨fun h _ => h, fun h => h hfilm⟩
  · rw [if_neg hfilm]
    exact ⟨fun _ h => absurd h hfilm, fun _ => Text.urlSafe_of_mem_percentEncode d.address⟩

/-- A URL on one line without a pipe stays in one piece with what stands around it. -/
theorem unbroken {d : Destination} (hline : '\n' ∉ d.written) (hpipe : '|' ∉ d.written) :
    Unbroken d.text := by
  -- The marks on both sides are the same for all URLs.
  have hbefore : ∀ p : UrlPlace,
      p.before ≠ [] ∧ Text.Trimmed p.before ∧ '\n' ∉ p.before ∧ '|' ∉ p.before := by
    intro p
    cases p <;> exact ⟨by decide, Text.trimmed_iff.mpr (by decide), by decide, by decide⟩
  have hafter : ∀ p : UrlPlace,
      p.after ≠ [] ∧ Text.Trimmed p.after ∧ '\n' ∉ p.after ∧ '|' ∉ p.after := by
    intro p
    cases p <;> exact ⟨by decide, Text.trimmed_iff.mpr (by decide), by decide, by decide⟩
  rcases hbefore d.place with ⟨hfilled, htrimmed, hlineBefore, hpipeBefore⟩
  rcases hafter d.place with ⟨hfilled', htrimmed', hlineAfter, hpipeAfter⟩
  refine ⟨List.append_ne_nil_of_right_ne_nil _ hfilled', ?_, ?_, ?_⟩
  · exact Text.TrimmedBy.append htrimmed htrimmed' d.written hfilled hfilled'
  · simp only [text, List.mem_append, not_or]
    exact ⟨⟨hlineBefore, hline⟩, hlineAfter⟩
  · simp only [text, List.mem_append, not_or]
    exact ⟨⟨hpipeBefore, hpipe⟩, hpipeAfter⟩

/-- What is safe has nothing in it that layout could break. -/
theorem IsSafe.unbroken {d : Destination} (h : d.IsSafe) : Unbroken d.text :=
  Destination.unbroken (fun hc => absurd (h _ hc) (by decide)) fun hc => absurd (h _ hc) (by decide)

end Destination

/-- The URLs that are written for a film. -/
def filmDestinations (src : Dom.AttrValue) (poster : Option String) : List Destination :=
  ⟨.film, src.display.toList⟩ ::
    match poster with
    | some url => if url = "" then [] else [⟨.poster, url.toList⟩]
    | none => []

mutual

/-- The URLs that are written for nodes, in the order of the text. -/
def destinations : List Node → List Destination
  | [] => []
  | node :: rest => node.destinations ++ destinations rest

/-- The URLs that are written for a node. -/
def Node.destinations : Node → List Destination
  | .emphasis _ content => Markdown.destinations content
  | .link href content =>
    match shortLink? href content with
    | some _ => [⟨.label, href.toList⟩]
    | none => ⟨.anchor, href.toList⟩ :: Markdown.destinations content
  | .heading _ content => Markdown.destinations content
  | .image src alt => if imageText src alt = [] then [] else [⟨.image, src.toList⟩]
  | .video src poster _ => filmDestinations src poster
  | .list _ items => itemDestinations items
  | .table rows _ => if tableWidth rows = 0 then [] else rowDestinations rows
  | .quote content => Markdown.destinations content
  | .semantic _ content => Markdown.destinations content
  | _ => []

/-- The URLs that are written for items. -/
def itemDestinations : List (List Node) → List Destination
  | [] => []
  | item :: items => destinations item ++ itemDestinations items

/-- The URLs that are written for the rows of a table. -/
def rowDestinations : List (List Cell) → List Destination
  | [] => []
  | row :: rows => cellDestinations row ++ rowDestinations rows

/-- The URLs that are written for the cells of a row. -/
def cellDestinations : List Cell → List Destination
  | [] => []
  | .plain .. :: cells => cellDestinations cells
  | .rich content _ :: cells => destinations content ++ cellDestinations cells

end

/-- The short form of a link ends with its destination. -/
theorem infix_shortLink {href : String} {content : List Node} {text : List Char}
    (h : shortLink? href content = some text) :
    (Destination.mk .label href.toList).text <:+: text := by
  unfold shortLink? at h
  split at h
  · rename_i label
    simp only at h
    split at h
    · rw [← Option.some.inj h]
      exact List.infix_cons (List.suffix_append label.toList _).isInfix
    · exact nomatch h
  · exact nomatch h

/-- The long form of a link has its address in it. -/
theorem infix_longLink (href : String) (inner : List Char) :
    (Destination.mk .anchor href.toList).text <:+: longLink href inner := by
  unfold longLink
  rw [List.append_assoc _ inner]
  exact (List.prefix_append _ _).isInfix

/-- An image that is written has its address in it. -/
theorem infix_imageText {src : String} {alt : Option String} (h : imageText src alt ≠ []) :
    (Destination.mk .image src.toList).text <:+: imageText src alt := by
  unfold imageText at h ⊢
  simp only at h ⊢
  split
  · rename_i hnone
    rw [if_pos hnone] at h
    exact absurd rfl h
  · rw [List.append_assoc _ (destination src), List.append_assoc _ "](".toList,
      ← List.append_assoc "](".toList]
    exact (List.suffix_append _ _).isInfix

/-- A film and its poster have a line each. -/
theorem infix_videoText {src : Dom.AttrValue} {poster : Option String} {controls : Option Bool}
    {d : Destination} (hd : d ∈ filmDestinations src poster) :
    d.text <:+: videoText src poster controls := by
  refine Text.infix_joinWith ['\n'] ?_
  unfold filmDestinations at hd
  rw [List.mem_cons] at hd
  rcases hd with rfl | hd
  · exact List.mem_cons_self
  · refine List.mem_cons_of_mem _ (List.mem_append_left _ ?_)
    cases poster with
    | none => exact absurd hd List.not_mem_nil
    | some url =>
        simp only at hd ⊢
        split at hd
        · exact absurd hd List.not_mem_nil
        · rename_i hfilled
          rw [if_neg hfilled, List.mem_singleton.mp hd]
          exact List.mem_singleton.mpr rfl

mutual

/-- A destination on one line, without a pipe, stands in the text with what belongs around it. -/
theorem infix_layOut {d : Destination} (h : Unbroken d.text) (indent : Int) (out : List Char)
    (nodes : List Node) (hd : d ∈ destinations nodes) : d.text <:+: layOut indent out nodes := by
  cases nodes with
  | nil => exact absurd hd List.not_mem_nil
  | cons node rest =>
      rw [destinations, List.mem_append] at hd
      rcases hd with hnode | hrest
      · exact h.layOut_of_block (infix_block h indent node hnode) out rest
      · exact infix_layOut h indent _ rest hrest

/-- A block has the addresses of all nodes below it. -/
theorem infix_block {d : Destination} (h : Unbroken d.text) (indent : Int) (node : Node)
    (hd : d ∈ node.destinations) : d.text <:+: node.block indent := by
  cases node with
  | emphasis style content =>
      rw [Node.destinations] at hd
      rw [Node.block]
      exact (h.trim (infix_layOut h indent [] content hd)).trans (List.infix_append _ _ _)
  | link href content =>
      rw [Node.destinations] at hd
      rw [Node.block]
      -- A short link is written as it is, and then nothing below it counts.
      cases hshort : shortLink? href content with
      | some text =>
          rw [hshort] at hd
          rw [List.mem_singleton.mp hd]
          exact infix_shortLink hshort
      | none =>
          rw [hshort] at hd
          rcases List.mem_cons.mp hd with rfl | hd
          · exact infix_longLink href _
          · exact (h.trim (infix_layOut h (indent + 1) [] content hd)).trans
              (List.infix_append _ _ _)
  | heading level content =>
      rw [Node.destinations] at hd
      rw [Node.block]
      exact h.heading (infix_layOut h indent [] content hd) level
  | image src alt =>
      rw [Node.destinations] at hd
      by_cases hnil : imageText src alt = []
      · rw [if_pos hnil] at hd
        exact absurd hd List.not_mem_nil
      · rw [if_neg hnil] at hd
        rw [List.mem_singleton.mp hd]
        exact infix_imageText hnil
  | video src poster controls =>
      rw [Node.destinations] at hd
      exact infix_videoText hd
  | list ordered items =>
      rw [Node.destinations] at hd
      rw [Node.block]
      rcases infix_itemLines h indent ordered 1 items hd with ⟨line, hline, hin⟩
      exact hin.trans (Text.infix_joinWith _ hline)
  | table rows colIds =>
      rw [Node.destinations] at hd
      rw [Node.block]
      split at hd
      · exact absurd hd List.not_mem_nil
      · rename_i hwidth
        rw [if_neg hwidth]
        rcases infix_rowLines h indent (tableWidth rows) rows hd with ⟨line, hline, hin⟩
        exact hin.trans (Text.infix_joinWith _ hline)
  | quote content =>
      rw [Node.destinations] at hd
      rw [Node.block]
      exact h.quote (infix_layOut h indent [] content hd)
  | semantic element content =>
      rw [Node.destinations] at hd
      rw [Node.block]
      exact h.semantic (infix_layOut h indent [] content hd) element
  | _ => exact absurd hd List.not_mem_nil

/-- Every address in an item is on one of the lines of the list. -/
theorem infix_itemLines {d : Destination} (h : Unbroken d.text) (indent : Int) (ordered : Bool)
    (number : Nat) (items : List (List Node)) (hd : d ∈ itemDestinations items) :
    ∃ line ∈ itemLines indent ordered number items, d.text <:+: line := by
  cases items with
  | nil => exact absurd hd List.not_mem_nil
  | cons item items =>
      rw [itemDestinations, List.mem_append] at hd
      rw [itemLines]
      rcases hd with hitem | hitems
      · exact ⟨_, List.mem_cons_self,
          h.item (infix_layOut h (indent + 1) [] item hitem) indent ordered number⟩
      · rcases infix_itemLines h indent ordered (number + 1) items hitems with ⟨line, hline, hin⟩
        exact ⟨line, List.mem_cons_of_mem _ hline, hin⟩

theorem infix_rowLines {d : Destination} (h : Unbroken d.text) (indent : Int) (width : Int)
    (rows : List (List Cell)) (hd : d ∈ rowDestinations rows) :
    ∃ line ∈ rowLines indent width rows, d.text <:+: line := by
  cases rows with
  | nil => exact absurd hd List.not_mem_nil
  | cons row rows =>
      rw [rowDestinations, List.mem_append] at hd
      rw [rowLines]
      rcases hd with hrow | hrows
      · rcases infix_rowPieces h indent row hrow with ⟨piece, hpiece, hin⟩
        refine ⟨_, List.mem_cons_self, List.infix_cons ?_⟩
        exact hin.trans ((Text.infix_joinWith _ (List.mem_append_left _ hpiece)).trans
          (List.prefix_append _ _).isInfix)
      · rcases infix_rowLines h indent width rows hrows with ⟨line, hline, hin⟩
        exact ⟨line, List.mem_cons_of_mem _ hline, hin⟩

/-- Every address in a cell is in its piece. -/
theorem infix_rowPieces {d : Destination} (h : Unbroken d.text) (indent : Int) (cells : List Cell)
    (hd : d ∈ cellDestinations cells) : ∃ piece ∈ rowPieces indent cells, d.text <:+: piece := by
  cases cells with
  | nil => exact absurd hd List.not_mem_nil
  | cons cell cells =>
      cases cell with
      -- A plain cell has no address in it.
      | plain text marks =>
          rw [cellDestinations] at hd
          rw [rowPieces]
          rcases infix_rowPieces h indent cells hd with ⟨piece, hpiece, hin⟩
          exact ⟨piece, List.mem_append_right _ hpiece, hin⟩
      | rich content marks =>
          rw [cellDestinations, List.mem_append] at hd
          rw [rowPieces]
          rcases hd with hcell | hcells
          · rcases h.cell (infix_layOut h (indent + 1) [] content hcell) marks with
              ⟨piece, hpiece, hin⟩
            exact ⟨piece, List.mem_append_left _ hpiece, hin⟩
          · rcases infix_rowPieces h indent cells hcells with ⟨piece, hpiece, hin⟩
            exact ⟨piece, List.mem_append_right _ hpiece, hin⟩

end

/-- A node with its URL encoded, if it is a link or an image. -/
def encodeAddress : Node → Node
  | .link href content => .link (Text.encodeUrl href) content
  | .image src alt => .image (Text.encodeUrl src) alt
  | node => node

theorem destination_encodeUrl (url : String) :
    destination (Text.encodeUrl url) = destination url := by
  rw [destination, Text.encodeUrl, String.toList_ofList, Text.percentEncode_percentEncode,
    destination]

/-- Encoding a URL first leaves nothing for the rule of its node to encode. -/
theorem unseen_encodeAddress : Unseen encodeAddress where
  block node indent := by
    cases node with
    | link href content =>
        -- An address is encoded once it is written, and encoding twice changes nothing.
        have hsame := destination_encodeUrl href
        have hshort : shortLink? (Text.encodeUrl href) content = shortLink? href content := by
          unfold shortLink?
          rw [hsame]
        rw [encodeAddress, Node.block, Node.block, hshort]
        unfold longLink
        rw [hsame]
    | image src alt =>
        have hempty : Text.encodeUrl src = "" ↔ src = "" := by
          rw [Text.encodeUrl, ← String.toList_inj, ← String.toList_inj, String.toList_ofList]
          exact Text.percentEncode_eq_nil_iff
        rw [encodeAddress, Node.block, Node.block]
        unfold imageText
        simp only [destination_encodeUrl src, hempty]
    | _ => rfl
  isInline node := by cases node <;> rfl
  isBlock node := by cases node <;> rfl
  isSection node := by cases node <;> rfl
  isHeading node := by cases node <;> rfl
  text node content := by
    cases node with
    | link href content => simp only [encodeAddress, reduceCtorEq]
    | image src alt => simp only [encodeAddress, reduceCtorEq]
    | _ => exact Iff.rfl

/-- A tree is written like the tree with the URLs of its links and images encoded. So what is
    written depends on these URLs through their encodings only. -/
theorem layOut_encodeAddress (indent : Int) (out : List Char) (nodes : List Node) :
    layOut indent out (rewrite encodeAddress nodes) = layOut indent out nodes :=
  layOut_rewrite unseen_encodeAddress indent out nodes

end Markdown

open Markdown (Node Destination destinations encodeAddress renderContent rewrite)

/-- What is written for the URLs of a tree, at any indent level. The text is that of the tree with
    the URLs of links and images encoded. The destinations of links and images are safe whatever the
    URLs hold, and those of films are safe exactly if the films' own URLs are. A safe destination is
    ASCII without blank space, and without marks that end an attribute, a cell or a line, and it
    stands in the text as it is, with what belongs around it. -/
theorem renderContent_destinations (o : Options) (ho : o.WithoutNodeHooks) (indent : Int)
    (nodes : List Node) :
    ∃ text, renderContent o indent nodes = .ok text ∧
      renderContent o indent (rewrite encodeAddress nodes) = .ok text ∧
      (∀ d ∈ destinations nodes,
        (d.IsSafe ↔ (d.place.ofFilm = true → ∀ c ∈ d.address, Text.urlSafe c = true))) ∧
      ∀ d ∈ destinations nodes, d.IsSafe → d.text <:+: text ∧
        ∀ c ∈ d.written, c.toNat < 128 ∧ Text.isBlank c = false ∧ c ∉ "\"<>|\\".toList := by
  refine ⟨_, Markdown.renderNodes_unhooked ho indent [] nodes, ?_, fun d _ => d.isSafe_iff,
    fun d hd hsafe => ⟨?_, fun c hc => Text.harmless_of_urlSafe (hsafe c hc)⟩⟩
  · rw [renderContent, Markdown.renderNodes_unhooked ho, Markdown.layOut_encodeAddress]
  · exact Markdown.infix_layOut hsafe.unbroken indent [] nodes hd

/-- Links in both forms, an image and a film with its poster, each below another node. -/
theorem renderContent_destinations_nested :
    let o := Options.default
    let nodes : List Node :=
      [.quote [.link "a\n> b|c" [.text "x"]],
        .table [[.rich [.link "\"é" [.text "y", .text "\n", .text "z"]] ⟨none, none, none⟩]] none,
        .list true [[.image "<i>" none, .video (.text "v.mp4") (some "p%20q") none]]]
    o.WithoutNodeHooks ∧
      (∃ text, renderContent o 1 nodes = .ok text ∧
        renderContent o 1 (rewrite encodeAddress nodes) = .ok text ∧
        (∀ d ∈ destinations nodes,
          (d.IsSafe ↔ (d.place.ofFilm = true → ∀ c ∈ d.address, Text.urlSafe c = true))) ∧
        ∀ d ∈ destinations nodes, d.IsSafe → d.text <:+: text ∧
          ∀ c ∈ d.written, c.toNat < 128 ∧ Text.isBlank c = false ∧ c ∉ "\"<>|\\".toList) ∧
      renderContent o 1 nodes = .ok
        ("> [x](a%0A%3E%20b%7Cc)\n\n| <a href=\"%22%C3%A9\">y z</a> |\n\n  1. ![](%3Ci%3E)\n\n" ++
          "![Video](v.mp4)\n![Poster](p%20q)\n").toList :=
  ⟨⟨rfl, rfl⟩, renderContent_destinations Options.default ⟨rfl, rfl⟩ 1 _, by decide +kernel⟩

/-- The URLs of a film stand in the text as the page has them: with a space, with a quotation mark
    and with a line end. The URL of an image is encoded. -/
theorem renderContent_film_raw :
    let o := Options.default
    let film : Node := .video (.text "a b") (some "c\n\"d\"") none
    o.WithoutNodeHooks ∧ (∃ d ∈ destinations [film], ¬ d.IsSafe) ∧
      renderContent o 0 [film] = .ok "![Video](a b)\n![Poster](c\n\"d\")\n".toList ∧
      renderContent o 0 [.image "a b" none] = .ok "![](a%20b)\n".toList := by
  refine ⟨⟨rfl, rfl⟩, ⟨⟨.film, "a b".toList⟩, List.mem_cons_self, fun hsafe => ?_⟩,
    by decide +kernel, by decide +kernel⟩
  exact absurd (hsafe ' ' (by decide)) (by decide)

end PageDistill
