import Mathlib.Data.List.DropRight
import Loku.Frontend.Links

/-!
# Descriptions

A description is cut into lines and words, and each word that begins like a web address becomes a
link without the punctuation at its end. Nothing is lost on the way but white space, the links
are those of the words of the whole text, and each is a web address that shows itself and opens
another window (`description_shown`).
-/

namespace Loku

open Html Attribute

section
variable {msg : Type}

mutual

/-- The text that is shown. -/
def Html.content : Html msg → List Char
  | .text s => s.toList
  | .node _ _ children => contentAll children

def Html.contentAll : List (Html msg) → List Char
  | [] => []
  | child :: children => content child ++ contentAll children

end

mutual

/-- The links in document order: the attributes of each and the text that it shows. -/
def Html.anchors : Html msg → List (List (Attribute msg) × List Char)
  | .text _ => []
  | .node tag attributes children =>
    (if tag = "a" then [(attributes, contentAll children)] else []) ++ anchorsAll children

def Html.anchorsAll : List (Html msg) → List (List (Attribute msg) × List Char)
  | [] => []
  | child :: children => anchors child ++ anchorsAll children

end

/-- The address of a link. -/
def Attribute.address : Attribute msg → Option String
  | .named name value => if name = "href" then some value else none
  | _ => none

/-- The addresses of the links in document order. -/
def Html.addresses (html : Html msg) : List String :=
  html.elements.flatMap fun e => if e.1 = "a" then e.2.filterMap Attribute.address else []

theorem Html.contentAll_eq (children : List (Html msg)) :
    contentAll children = children.flatMap content := by
  induction children with
  | nil => rfl
  | cons child children ih => rw [contentAll, ih, List.flatMap_cons]

theorem Html.anchorsAll_eq (children : List (Html msg)) :
    anchorsAll children = children.flatMap anchors := by
  induction children with
  | nil => rfl
  | cons child children ih => rw [anchorsAll, ih, List.flatMap_cons]

theorem Html.elementsAll_eq (children : List (Html msg)) :
    elementsAll children = children.flatMap elements := by
  induction children with
  | nil => rfl
  | cons child children ih => rw [elementsAll, ih, List.flatMap_cons]

@[simp]
theorem Html.addresses_text (s : String) : (text s : Html msg).addresses = [] := rfl

theorem Html.addresses_node {tag : String} {attributes : List (Attribute msg)}
    {children : List (Html msg)} : (node tag attributes children).addresses =
      (if tag = "a" then attributes.filterMap Attribute.address else []) ++
        children.flatMap addresses := by
  unfold addresses
  rw [elements, List.flatMap_cons, elementsAll_eq, List.flatMap_assoc]

end

namespace Player

/-! ## Words -/

/-- What is left without white space. -/
def visible (s : List Char) : List Char := s.filter fun c => !isTrimmed c

/-- The words of a text, the empty one left out. -/
def wordsOf (s : List Char) : List (List Char) := (s.splitOnP isTrimmed).filter (· ≠ [])

theorem flatten_splitOnP (s : List Char) : (s.splitOnP isTrimmed).flatten = visible s := by
  induction s with
  | nil => rfl
  | cons c s ih =>
    rw [List.splitOnP_cons_eq_if_modifyHead]
    unfold visible at ih ⊢
    by_cases hc : isTrimmed c = true
    · rw [if_pos hc, List.flatten_cons, List.nil_append, ih,
        List.filter_cons_of_neg (by simp [hc])]
    · rw [if_neg hc, List.filter_cons_of_pos (by simp [hc]), ← ih]
      cases hsplit : s.splitOnP isTrimmed with
      | nil => exact absurd hsplit (List.splitOnP_ne_nil _ _)
      | cons word more => rfl

/-- The words are what is visible. -/
theorem flatten_wordsOf (s : List Char) : (wordsOf s).flatten = visible s := by
  unfold wordsOf
  rw [List.flatten_filter_ne_nil, flatten_splitOnP]

theorem wordsOf_append_cons (before : List Char) {c : Char} (h : isTrimmed c = true)
    (behind : List Char) : wordsOf (before ++ c :: behind) = wordsOf before ++ wordsOf behind := by
  unfold wordsOf
  rw [List.splitOnP_append_cons before behind h, List.filter_append]

theorem wordsOf_cons {c : Char} (h : isTrimmed c = true) (s : List Char) :
    wordsOf (c :: s) = wordsOf s :=
  wordsOf_append_cons [] h s

theorem lines_ne_nil (s : List Char) : lines s ≠ [] := by
  fun_cases lines s <;> simp

/-- Cutting a text into lines first does not change its words. -/
theorem flatMap_wordsOf_lines (s before : List Char) :
    ((lines s).modifyHead (before ++ ·)).flatMap wordsOf = wordsOf (before ++ s) := by
  have hreturn : isTrimmed '\r' = true := by decide
  have hnewline : isTrimmed '\n' = true := by decide
  have hlater : ∀ rest, ((lines rest).modifyHead ([] ++ ·)).flatMap wordsOf = wordsOf ([] ++ rest) →
      (lines rest).flatMap wordsOf = wordsOf rest := by
    intro rest h
    have hid : (([] : List Char) ++ ·) = id := rfl
    rwa [hid, List.modifyHead_id, id_eq, List.nil_append] at h
  induction s using lines.induct generalizing before with
  | case1 => simp [lines]
  | case2 rest ih =>
    rw [lines, List.modifyHead_cons, List.flatMap_cons, List.append_nil, hlater rest (ih []),
      wordsOf_append_cons before hreturn, wordsOf_cons hnewline]
  | case3 rest hrest ih =>
    rw [lines, List.modifyHead_cons, List.flatMap_cons, List.append_nil, hlater rest (ih []),
      wordsOf_append_cons before hreturn]
    exact hrest
  | case4 rest ih =>
    rw [lines, List.modifyHead_cons, List.flatMap_cons, List.append_nil, hlater rest (ih []),
      wordsOf_append_cons before hnewline]
  | case5 c rest hcrlf hcr hlf line more hlines ih =>
    have hcons : lines (c :: rest) = (c :: line) :: more := by
      rw [lines.eq_5 _ _ hcrlf hcr hlf, hlines]
    have hmoved := ih (before ++ [c])
    rw [hlines] at hmoved
    rw [hcons]
    simpa using hmoved
  | case6 c rest _ _ _ hnil => exact absurd hnil (lines_ne_nil rest)

theorem flatMap_wordsOf_lines_self (s : List Char) : (lines s).flatMap wordsOf = wordsOf s := by
  have hid : (([] : List Char) ++ ·) = id := rfl
  have hlines := flatMap_wordsOf_lines s []
  rwa [hid, List.modifyHead_id, id_eq, List.nil_append] at hlines

/-! ## One word -/

theorem isPrefix_stripTrailingPunct (w : List Char) : (stripTrailingPunct w).1 <+: w :=
  List.rdropWhile_prefix _ w

theorem stripTrailingPunct_append (w : List Char) :
    (stripTrailingPunct w).1 ++ (stripTrailingPunct w).2 = w :=
  List.prefix_iff_eq_append.mp (isPrefix_stripTrailingPunct w)

/-- Nothing is taken from a beginning that does not end in punctuation. -/
theorem prefix_stripTrailingPunct (before : List Char) {w : List Char} {c : Char}
    (h : before ++ [c] <+: w) (hc : c ∉ punctChars) :
    before ++ [c] <+: (stripTrailingPunct w).1 := by
  obtain ⟨rest, rfl⟩ := h
  have hkept : (before ++ [c]).reverse.dropWhile punctChars.contains = (before ++ [c]).reverse := by
    rw [List.reverse_append]
    exact List.dropWhile_cons_of_neg (by simpa using hc)
  unfold stripTrailingPunct
  rw [List.reverse_append, List.dropWhile_append, hkept]
  split
  · rw [List.reverse_reverse]
  · rw [List.reverse_append, List.reverse_reverse]
    exact List.prefix_append _ _

theorem isUrl_stripTrailingPunct {w : List Char} (h : isUrl w = true) :
    isUrl (stripTrailingPunct w).1 = true := by
  have hslash : '/' ∉ punctChars := by decide
  unfold isUrl at h ⊢
  rw [Bool.or_eq_true, List.isPrefixOf_iff_prefix, List.isPrefixOf_iff_prefix] at h ⊢
  rcases h with h | h
  · exact Or.inl (prefix_stripTrailingPunct "http:/".toList h hslash)
  · exact Or.inr (prefix_stripTrailingPunct "https:/".toList h hslash)

section
variable {msg : Type}

/-- A word is shown as it is. -/
theorem content_renderWord (w : List Char) : (renderWord w : Html msg).content = w := by
  unfold renderWord
  split
  · simp [span, outerLink, a, Html.content, Html.contentAll, stripTrailingPunct_append]
  · exact String.toList_ofList

/-- The link of a word. -/
def linkOf (w : List Char) : String := String.ofList (stripTrailingPunct w).1

theorem addresses_outerLink (url label : String) :
    (outerLink url label : Html msg).addresses = [url] := by
  simp [outerLink, a, addresses_node, href, target, Attribute.address]

theorem addresses_renderWord (w : List Char) :
    (renderWord w : Html msg).addresses = if isUrl w then [linkOf w] else [] := by
  unfold renderWord
  split
  · simp [span, addresses_node, addresses_outerLink, linkOf]
  · rfl

/-! ## One line -/

/-- What is put between the words adds nothing visible and no link. -/
theorem flatMap_intersperse {α β : Type} (f : α → List β) {sep : α} (hsep : f sep = [])
    (l : List α) : (l.intersperse sep).flatMap f = l.flatMap f := by
  induction l using List.twoStepInduction with
  | nil => rfl
  | singleton x => rfl
  | cons_cons x y l _ ih =>
    rw [List.intersperse_cons_cons, List.flatMap_cons, List.flatMap_cons, hsep, List.nil_append,
      ih y, ← List.flatMap_cons]

/-- A line in terms of its words, for what is neither in white space nor in the empty word. -/
theorem flatMap_renderLine {β : Type} (f : Html msg → List β) (hspace : f (text " ") = [])
    (hend : f (text "\n") = []) (hempty : f (renderWord []) = []) (line : List Char) :
    (renderLine line).flatMap f = (wordsOf line).flatMap fun w => f (renderWord w) := by
  have hwords : (words line).flatMap (fun w => f (renderWord w)) =
      (wordsOf line).flatMap fun w => f (renderWord w) := by
    unfold words wordsOf
    split
    · rename_i hnone
      rw [hnone]
      simp [hempty]
    · rfl
  unfold renderLine
  split
  · rename_i hline
    subst hline
    simp [hend, wordsOf]
  · rw [List.flatMap_append, flatMap_intersperse f hspace, List.flatMap_map, hwords]
    simp [hend]

/-- A description in terms of the words of the whole text. -/
theorem flatMap_renderDescription {β : Type} (f : Html msg → List β) (hspace : f (text " ") = [])
    (hend : f (text "\n") = []) (hempty : f (renderWord []) = []) (desc : String) :
    (renderDescription desc).flatMap f =
      (wordsOf desc.toList).flatMap fun w => f (renderWord w) := by
  unfold renderDescription
  rw [List.flatMap_assoc, ← flatMap_wordsOf_lines_self, List.flatMap_assoc]
  exact List.flatMap_congr fun line _ => flatMap_renderLine f hspace hend hempty line

/-! ## The whole description -/

theorem addresses_viewDescription (desc : String) :
    (viewDescription desc : Html msg).addresses =
      ((wordsOf desc.toList).filter isUrl).map linkOf := by
  unfold viewDescription div
  rw [addresses_node, if_neg (by decide), List.nil_append,
    flatMap_renderDescription addresses rfl rfl rfl]
  induction wordsOf desc.toList with
  | nil => rfl
  | cons w rest ih =>
    rw [List.flatMap_cons, ih, addresses_renderWord]
    by_cases hw : isUrl w = true <;> simp [hw]

theorem visible_content_viewDescription (desc : String) :
    visible (viewDescription desc : Html msg).content = visible desc.toList := by
  have hword : ∀ w : List Char, visible (renderWord w : Html msg).content = visible w :=
    fun w => congrArg visible (content_renderWord w)
  have hcontent : visible (viewDescription desc : Html msg).content =
      (renderDescription desc : List (Html msg)).flatMap fun html => visible html.content := by
    unfold viewDescription div visible
    rw [Html.content, contentAll_eq, List.filter_flatMap]
  have hflat : ∀ ws : List (List Char), ws.flatMap visible = visible ws.flatten := by
    intro ws
    unfold visible
    rw [List.filter_flatten, List.flatMap_def]
  rw [hcontent, flatMap_renderDescription (fun html : Html msg => visible html.content)
    rfl rfl rfl]
  simp only [hword]
  rw [hflat, flatten_wordsOf]
  unfold visible
  rw [List.filter_filter]
  simp

/-- A link of a description shows its own address. -/
theorem address_of_mem_anchors {desc : String} {anchor : List (Attribute msg) × List Char}
    (h : anchor ∈ (viewDescription desc : Html msg).anchors) :
    anchor.1.filterMap Attribute.address = [String.ofList anchor.2] := by
  have hdiv : "div" ≠ "a" := by decide
  have hspan : "span" ≠ "a" := by decide
  unfold viewDescription div at h
  rw [anchors, if_neg hdiv, List.nil_append, anchorsAll_eq] at h
  obtain ⟨child, hchild, h⟩ := List.mem_flatMap.mp h
  rcases mem_renderDescription hchild with ⟨s, rfl⟩ | ⟨url, rest, rfl⟩
  · cases h
  · have hlink : anchor = ([href url, target "_blank",
        .named "rel" "noopener noreferrer"], url.toList) := by
      simpa [span, outerLink, a, anchors, anchorsAll, contentAll, content] using h
    rw [hlink, String.ofList_toList]
    simp [href, target, Attribute.address]

/-- A link of a description opens another window, which learns nothing of this one. -/
theorem attributes_of_mem_viewDescription {desc : String} {e : String × List (Attribute msg)}
    (he : e ∈ (viewDescription desc : Html msg).elements) (htag : e.1 = "a") :
    .named "target" "_blank" ∈ e.2 ∧ .named "rel" "noopener noreferrer" ∈ e.2 := by
  have hdiv : "div" ≠ "a" := by decide
  have hspan : "span" ≠ "a" := by decide
  rcases List.mem_cons.mp he with rfl | he
  · exact absurd htag hdiv
  · obtain ⟨child, hchild, he⟩ := mem_elementsAll.mp he
    rcases mem_renderDescription hchild with ⟨s, rfl⟩ | ⟨url, rest, rfl⟩
    · cases he
    · simp only [span, outerLink, a, elements, elementsAll, List.append_nil, List.mem_cons,
        List.not_mem_nil, or_false] at he
      rcases he with rfl | rfl
      · exact absurd htag hspan
      · simp [target]

end

end Player

open Player in
/-- Of a description nothing is lost but white space. Its links are those of the words that begin
like a web address, in their order; each is still a web address, shows itself, and opens another
window. -/
theorem description_shown {msg : Type} (desc : String) :
    visible (viewDescription desc : Html msg).content = visible desc.toList ∧
      (viewDescription desc : Html msg).addresses =
        ((wordsOf desc.toList).filter isUrl).map linkOf ∧
      (∀ url ∈ (viewDescription desc : Html msg).addresses, isUrl url.toList = true) ∧
      (∀ anchor ∈ (viewDescription desc : Html msg).anchors,
        anchor.1.filterMap Attribute.address = [String.ofList anchor.2]) ∧
      ∀ e ∈ (viewDescription desc : Html msg).elements, e.1 = "a" →
        .named "target" "_blank" ∈ e.2 ∧ .named "rel" "noopener noreferrer" ∈ e.2 := by
  refine ⟨visible_content_viewDescription desc, addresses_viewDescription desc, ?_,
    fun _ h => address_of_mem_anchors h, fun e he htag => attributes_of_mem_viewDescription he htag⟩
  intro url hurl
  rw [addresses_viewDescription] at hurl
  obtain ⟨w, hw, rfl⟩ := List.mem_map.mp hurl
  rw [linkOf, String.toList_ofList]
  exact isUrl_stripTrailingPunct (List.mem_filter.mp hw).2

end Loku
