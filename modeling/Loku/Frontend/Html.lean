import Loku.Frontend.Decode

/-!
# Rendered pages

A rendered page is a tree of elements with attributes and texts. What a user can do with it is
what its elements offer: the address of a link that the application handles, and the messages
that its listeners may send.
-/

namespace Loku

/-- A value, or a listener with the messages it sends. -/
inductive Attribute (msg : Type)
  | named (name value : String)
  | onClick (msg : msg)
  | onInput (toMsg : String → msg)
  | onSubmit (msg : msg)
  | on (event : String) (decoder : Decoder msg)

inductive Html (msg : Type)
  | text (s : String)
  | node (tag : String) (attributes : List (Attribute msg)) (children : List (Html msg))

variable {msg msg' : Type}

namespace Attribute

def map (f : msg → msg') : Attribute msg → Attribute msg'
  | .named name value => .named name value
  | .onClick msg => .onClick (f msg)
  | .onInput toMsg => .onInput fun s => f (toMsg s)
  | .onSubmit msg => .onSubmit (f msg)
  | .on event decoder => .on event (Decode.map f decoder)

/-- The messages a listener may send: for any text typed and any event. -/
def Sends : Attribute msg → msg → Prop
  | .named .., _ => False
  | .onClick msg, m => msg = m
  | .onInput toMsg, m => ∃ s, toMsg s = m
  | .onSubmit msg, m => msg = m
  | .on _ decoder, m => ∃ event, decoder event = some m

def isNamed (name : String) : Attribute msg → Bool
  | .named n _ => n == name
  | _ => false

def class_ (value : String) : Attribute msg := .named "class" value

def href (url : String) : Attribute msg := .named "href" url

def src (url : String) : Attribute msg := .named "src" url

def alt (value : String) : Attribute msg := .named "alt" value

def type_ (value : String) : Attribute msg := .named "type" value

def placeholder (value : String) : Attribute msg := .named "placeholder" value

def value (value : String) : Attribute msg := .named "value" value

def target (value : String) : Attribute msg := .named "target" value

def controls : Attribute msg := .named "controls" ""

theorem sends_map {f : msg → msg'} {a : Attribute msg} {m : msg'} :
    (a.map f).Sends m ↔ ∃ m₀, a.Sends m₀ ∧ f m₀ = m := by
  cases a with
  | named name value => simp [map, Sends]
  | onClick msg => simp [map, Sends]
  | onInput toMsg => simp [map, Sends]
  | onSubmit msg => simp [map, Sends]
  | on event decoder =>
    constructor
    · rintro ⟨json, hjson⟩
      obtain ⟨m₀, hm₀, rfl⟩ := Option.map_eq_some_iff.mp hjson
      exact ⟨m₀, ⟨json, hm₀⟩, rfl⟩
    · rintro ⟨m₀, ⟨json, hjson⟩, rfl⟩
      exact ⟨json, by rw [Decode.map, hjson]; rfl⟩

@[simp]
theorem isNamed_map (f : msg → msg') (name : String) (a : Attribute msg) :
    (a.map f).isNamed name = a.isNamed name := by
  cases a <;> rfl

end Attribute

namespace Html

mutual

def map (f : msg → msg') : Html msg → Html msg'
  | .text s => .text s
  | .node tag attributes children =>
    .node tag (attributes.map (Attribute.map f)) (mapAll f children)

def mapAll (f : msg → msg') : List (Html msg) → List (Html msg')
  | [] => []
  | child :: children => map f child :: mapAll f children

end

mutual

/-- The elements in document order, each with its attributes. -/
def elements : Html msg → List (String × List (Attribute msg))
  | .text _ => []
  | .node tag attributes children => (tag, attributes) :: elementsAll children

def elementsAll : List (Html msg) → List (String × List (Attribute msg))
  | [] => []
  | child :: children => elements child ++ elementsAll children

end

/-- Some element is like that. -/
def Has (P : String → List (Attribute msg) → Prop) (html : Html msg) : Prop :=
  ∃ e ∈ html.elements, P e.1 e.2

/-- A message that the page may send. -/
def Sends (html : Html msg) (m : msg) : Prop :=
  html.Has fun _ attributes => ∃ a ∈ attributes, a.Sends m

/-- A link that the application handles itself: one that neither opens another window nor
downloads. -/
def Links (html : Html msg) (url : String) : Prop :=
  html.Has fun tag attributes => tag = "a" ∧ Attribute.href url ∈ attributes ∧
    (∀ a ∈ attributes, a.isNamed "target" = false ∧ a.isNamed "download" = false)

def div (attributes : List (Attribute msg)) (children : List (Html msg)) : Html msg :=
  .node "div" attributes children

def span (attributes : List (Attribute msg)) (children : List (Html msg)) : Html msg :=
  .node "span" attributes children

def p (attributes : List (Attribute msg)) (children : List (Html msg)) : Html msg :=
  .node "p" attributes children

def a (attributes : List (Attribute msg)) (children : List (Html msg)) : Html msg :=
  .node "a" attributes children

def h1 (attributes : List (Attribute msg)) (children : List (Html msg)) : Html msg :=
  .node "h1" attributes children

def h2 (attributes : List (Attribute msg)) (children : List (Html msg)) : Html msg :=
  .node "h2" attributes children

def nav (attributes : List (Attribute msg)) (children : List (Html msg)) : Html msg :=
  .node "nav" attributes children

def img (attributes : List (Attribute msg)) (children : List (Html msg)) : Html msg :=
  .node "img" attributes children

def form (attributes : List (Attribute msg)) (children : List (Html msg)) : Html msg :=
  .node "form" attributes children

def input (attributes : List (Attribute msg)) (children : List (Html msg)) : Html msg :=
  .node "input" attributes children

def button (attributes : List (Attribute msg)) (children : List (Html msg)) : Html msg :=
  .node "button" attributes children

def video (attributes : List (Attribute msg)) (children : List (Html msg)) : Html msg :=
  .node "video" attributes children

def source (attributes : List (Attribute msg)) (children : List (Html msg)) : Html msg :=
  .node "source" attributes children

def progress (attributes : List (Attribute msg)) (children : List (Html msg)) : Html msg :=
  .node "progress" attributes children

/-! ## What a page offers -/

theorem mem_elementsAll {e : String × List (Attribute msg)} {children : List (Html msg)} :
    e ∈ elementsAll children ↔ ∃ child ∈ children, e ∈ child.elements := by
  induction children with
  | nil => simp [elementsAll]
  | cons child children ih => simp [elementsAll, ih]

@[simp]
theorem has_text (P : String → List (Attribute msg) → Prop) (s : String) :
    ¬ (text s).Has P := by
  rintro ⟨e, he, -⟩
  cases he

@[simp]
theorem has_node {P : String → List (Attribute msg) → Prop} {tag : String}
    {attributes : List (Attribute msg)} {children : List (Html msg)} :
    (node tag attributes children).Has P ↔
      P tag attributes ∨ ∃ child ∈ children, child.Has P := by
  constructor
  · rintro ⟨e, he, hP⟩
    rcases List.mem_cons.mp he with rfl | he
    · exact Or.inl hP
    · obtain ⟨child, hchild, he⟩ := mem_elementsAll.mp he
      exact Or.inr ⟨child, hchild, e, he, hP⟩
  · rintro (hP | ⟨child, hchild, e, he, hP⟩)
    · exact ⟨_, List.mem_cons_self, hP⟩
    · exact ⟨e, List.mem_cons_of_mem _ (mem_elementsAll.mpr ⟨child, hchild, he⟩), hP⟩

theorem elementsAll_mapAll_of {f : msg → msg'} : ∀ {children : List (Html msg)},
    (∀ child ∈ children,
      (child.map f).elements = child.elements.map fun e => (e.1, e.2.map (Attribute.map f))) →
    elementsAll (mapAll f children) =
      (elementsAll children).map fun e => (e.1, e.2.map (Attribute.map f))
  | [], _ => rfl
  | child :: children, h => by
    simp only [mapAll, elementsAll, List.map_append, h child List.mem_cons_self]
    rw [elementsAll_mapAll_of fun child' hchild' => h child' (List.mem_cons_of_mem _ hchild')]

theorem elements_map (f : msg → msg') : ∀ html : Html msg,
    (html.map f).elements = html.elements.map fun e => (e.1, e.2.map (Attribute.map f))
  | .text _ => rfl
  | .node tag attributes children => by
    simp only [map, elements, List.map_cons]
    rw [elementsAll_mapAll_of fun child _ => elements_map f child]

theorem has_map {f : msg → msg'} {P : String → List (Attribute msg') → Prop} {html : Html msg} :
    (html.map f).Has P ↔
      html.Has fun tag attributes => P tag (attributes.map (Attribute.map f)) := by
  unfold Has
  rw [elements_map]
  simp

theorem sends_map {f : msg → msg'} {html : Html msg} {m : msg'} :
    (html.map f).Sends m ↔ ∃ m₀, html.Sends m₀ ∧ f m₀ = m := by
  unfold Sends
  rw [has_map]
  unfold Has
  simp only [List.mem_map, exists_exists_and_eq_and, Attribute.sends_map]
  constructor
  · rintro ⟨e, he, a, ha, m₀, hm₀, rfl⟩
    exact ⟨m₀, ⟨e, he, a, ha, hm₀⟩, rfl⟩
  · rintro ⟨m₀, ⟨e, he, a, ha, hm₀⟩, rfl⟩
    exact ⟨e, he, a, ha, m₀, hm₀, rfl⟩

theorem links_map {f : msg → msg'} {html : Html msg} {url : String} :
    (html.map f).Links url ↔ html.Links url := by
  unfold Links
  rw [has_map]
  unfold Has
  have hhref : ∀ a : Attribute msg, a.map f = Attribute.href url ↔ a = Attribute.href url := by
    intro a
    unfold Attribute.href
    cases a <;> simp [Attribute.map]
  simp only [List.mem_map, hhref, exists_eq_right, forall_exists_index, and_imp,
    forall_apply_eq_imp_iff₂, Attribute.isNamed_map]

end Html

end Loku
