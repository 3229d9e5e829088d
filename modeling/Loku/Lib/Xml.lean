import Mathlib.Data.List.Infix

/-!
# XML documents

The documents of XML 1.0, one type for each production that matters to where an `&` may stand. The
types follow the grammar; what it says of declared names, of attribute names in one tag or of the
order of pseudo-attributes is not part of them, so they have every well-formed document and some
more.

A document is written as a list of pieces (`Document.pieces`): markup and plain text, in which no
`&` may stand (`Document.plain`); references; and raw text, in which anything may stand up to its
closing delimiter, as in comments, `CDATA` sections, processing instructions and system literals.
-/

namespace Lib.Xml

/-! ## Characters and names -/

def inRanges (ranges : List (Nat × Nat)) (c : Char) : Bool :=
  ranges.any fun r => r.1 ≤ c.toNat && c.toNat ≤ r.2

/-- The characters of a document. -/
def isChar (c : Char) : Bool :=
  inRanges [(0x9, 0xA), (0xD, 0xD), (0x20, 0xD7FF), (0xE000, 0xFFFD), (0x10000, 0x10FFFF)] c

def isSpace (c : Char) : Bool := inRanges [(0x9, 0xA), (0xD, 0xD), (0x20, 0x20)] c

def isNameStart (c : Char) : Bool :=
  c == ':' || c == '_' || c.isAlpha || inRanges [(0xC0, 0xD6), (0xD8, 0xF6), (0xF8, 0x2FF),
    (0x370, 0x37D), (0x37F, 0x1FFF), (0x200C, 0x200D), (0x2070, 0x218F), (0x2C00, 0x2FEF),
    (0x3001, 0xD7FF), (0xF900, 0xFDCF), (0xFDF0, 0xFFFD), (0x10000, 0xEFFFF)] c

def isNameChar (c : Char) : Bool :=
  isNameStart c || c == '-' || c == '.' || c.isDigit ||
    inRanges [(0xB7, 0xB7), (0x300, 0x36F), (0x203F, 0x2040)] c

structure Name where
  text : List Char
  start : text.head?.any isNameStart = true
  valid : ∀ c ∈ text, isNameChar c = true

/-- White space that may be missing. -/
structure Space where
  chars : List Char
  valid : ∀ c ∈ chars, isSpace c = true

/-- White space. -/
structure Gap extends Space where
  nonempty : chars ≠ []

/-- Characters other than some. -/
structure Text (stop : List Char) where
  chars : List Char
  valid : ∀ c ∈ chars, isChar c = true ∧ c ∉ stop

inductive Quote
  | double
  | single

def Quote.char : Quote → Char
  | .double => '"'
  | .single => Char.ofNat 39

/-! ## References -/

/-- Digits of one kind. -/
structure Number (isDigit : Char → Bool) where
  digits : List Char
  nonempty : digits ≠ []
  valid : ∀ c ∈ digits, isDigit c = true

inductive Reference
  | entity (name : Name)
  | decimal (number : Number Char.isDigit)
  | hex (number : Number Char.isHexDigit)

/-- What stands between the `&` and the `;`. -/
def Reference.body : Reference → List Char
  | .entity name => name.text
  | .decimal number => '#' :: number.digits
  | .hex number => '#' :: 'x' :: number.digits

/-! ## Pieces -/

/-- The delimiter that ends raw text. -/
inductive Closing
  | comment
  | cdata
  | instruction
  | quote (q : Quote)

def Closing.text : Closing → List Char
  | .comment => ['-', '-', '>']
  | .cdata => [']', ']', '>']
  | .instruction => ['?', '>']
  | .quote q => [q.char]

inductive Piece
  | markup (text : List Char)
  | reference (r : Reference)
  | raw (body : List Char) (closing : Closing)

def Piece.text : Piece → List Char
  | .markup text => text
  | .reference r => '&' :: r.body ++ [';']
  | .raw body closing => body ++ closing.text

def write (pieces : List Piece) : List Char := pieces.flatMap Piece.text

/-- Markup has no `&`. -/
def Piece.Plain : Piece → Prop
  | .markup text => '&' ∉ text
  | .reference _ => True
  | .raw _ _ => True

/-- All markup has no `&`. -/
def Plain (pieces : List Piece) : Prop := ∀ p ∈ pieces, p.Plain

/-! ## Literals and raw sections -/

/-- Text in which an `&` begins a reference. -/
inductive Part (stop : List Char)
  | text (t : Text ('&' :: stop))
  | reference (r : Reference)

def Part.piece {stop : List Char} : Part stop → Piece
  | .text t => .markup t.chars
  | .reference r => .reference r

/-- An attribute's or an entity's value. -/
structure Value (stop : List Char) where
  quote : Quote
  parts : List (Part (quote.char :: stop))

def Value.pieces {stop : List Char} (v : Value stop) : List Piece :=
  .markup [v.quote.char] :: v.parts.map Part.piece ++ [.markup [v.quote.char]]

/-- A system or public identifier. -/
structure Literal where
  quote : Quote
  text : Text [quote.char]

def Literal.pieces (l : Literal) : List Piece :=
  [.markup [l.quote.char], .raw l.text.chars (.quote l.quote)]

/-- A comment has no two hyphens in it, and none at its end. -/
structure Comment where
  body : Text []
  valid : ¬ ['-', '-'] <:+: body.chars ++ ['-']

def Comment.pieces (c : Comment) : List Piece :=
  [.markup ['<', '!', '-', '-'], .raw c.body.chars .comment]

structure CData where
  body : Text []
  valid : ¬ [']', ']', '>'] <:+: body.chars

def CData.pieces (c : CData) : List Piece :=
  [.markup "<![CDATA[".toList, .raw c.body.chars .cdata]

/-- A processing instruction. -/
structure Instruction where
  target : Name
  data : Option (Gap × Text [])
  valid : ∀ p ∈ data, ¬ ['?', '>'] <:+: p.2.chars

def Instruction.pieces (i : Instruction) : List Piece :=
  [.markup ('<' :: '?' :: i.target.text),
    .raw (i.data.elim [] fun p => p.1.chars ++ p.2.chars) .instruction]

inductive Misc
  | comment (c : Comment)
  | instruction (i : Instruction)
  | space (s : Gap)

def Misc.pieces : Misc → List Piece
  | .comment c => c.pieces
  | .instruction i => i.pieces
  | .space s => [.markup s.chars]

/-! ## Elements -/

structure Attribute where
  gap : Gap
  name : Name
  before : Space
  after : Space
  value : Value ['<']

def Attribute.pieces (a : Attribute) : List Piece :=
  .markup (a.gap.chars ++ a.name.text ++ a.before.chars ++ '=' :: a.after.chars) :: a.value.pieces

/-- A start tag or the tag of an empty element, without its end. -/
structure Tag where
  name : Name
  attributes : List Attribute
  trail : Space

def Tag.pieces (tag : Tag) : List Piece :=
  .markup ('<' :: tag.name.text) :: tag.attributes.flatMap Attribute.pieces ++
    [.markup tag.trail.chars]

def endTag (name : Name) (trail : Space) : Piece :=
  .markup ('<' :: '/' :: name.text ++ trail.chars ++ ['>'])

/-- The content of an element, item by item. -/
inductive Content
  | done
  | text (t : Text ['&', '<']) (rest : Content)
  | reference (r : Reference) (rest : Content)
  | cdata (c : CData) (rest : Content)
  | misc (m : Misc) (rest : Content)
  | emptyElement (tag : Tag) (rest : Content)
  | element (tag : Tag) (content : Content) (trail : Space) (rest : Content)

def Content.pieces : Content → List Piece
  | .done => []
  | .text t rest => .markup t.chars :: rest.pieces
  | .reference r rest => .reference r :: rest.pieces
  | .cdata c rest => c.pieces ++ rest.pieces
  | .misc m rest => m.pieces ++ rest.pieces
  | .emptyElement tag rest => tag.pieces ++ .markup ['/', '>'] :: rest.pieces
  | .element tag content trail rest =>
    tag.pieces ++ .markup ['>'] :: (content.pieces ++ endTag tag.name trail :: rest.pieces)

inductive Element
  | empty (tag : Tag)
  | full (tag : Tag) (content : Content) (trail : Space)

def Element.pieces : Element → List Piece
  | .empty tag => (Content.emptyElement tag .done).pieces
  | .full tag content trail => (Content.element tag content trail .done).pieces

/-! ## The document type -/

inductive ExternalId
  | system (gap : Gap) (location : Literal)
  | pubid (gap : Gap) (identifier : Literal) (gap' : Gap) (location : Literal)

def ExternalId.pieces : ExternalId → List Piece
  | .system gap location => .markup ("SYSTEM".toList ++ gap.chars) :: location.pieces
  | .pubid gap identifier gap' location =>
    .markup ("PUBLIC".toList ++ gap.chars) :: identifier.pieces ++
      .markup gap'.chars :: location.pieces

/-- The default of an attribute in a declaration. -/
inductive AttDefault
  | required
  | implied
  | value (fixed : Option Gap) (v : Value ['<'])

def AttDefault.pieces : AttDefault → List Piece
  | .required => [.markup "#REQUIRED".toList]
  | .implied => [.markup "#IMPLIED".toList]
  | .value fixed v =>
    .markup (fixed.elim [] fun gap => "#FIXED".toList ++ gap.chars) :: v.pieces

structure AttDef where
  gap : Gap
  name : Name
  gap' : Gap
  type : Text ['&', '<', '>']
  default : AttDefault

def AttDef.pieces (d : AttDef) : List Piece :=
  .markup (d.gap.chars ++ d.name.text ++ d.gap'.chars ++ d.type.chars) :: d.default.pieces

/-- What an entity stands for. -/
inductive EntityDef
  | value (v : Value ['%'])
  | external (id : ExternalId) (ndata : Option (Gap × Gap × Name))

def EntityDef.pieces : EntityDef → List Piece
  | .value v => v.pieces
  | .external id ndata => id.pieces ++ [.markup (ndata.elim [] fun p =>
      p.1.chars ++ "NDATA".toList ++ p.2.1.chars ++ p.2.2.text)]

/-- One item of the internal subset. -/
inductive Declaration
  | element (gap : Gap) (name : Name) (spec : Text ['&', '<', '>'])
  | attlist (gap : Gap) (name : Name) (defs : List AttDef) (trail : Space)
  | entity (gap : Gap) (parameter : Option Gap) (name : Name) (gap' : Gap) (value : EntityDef)
    (trail : Space)
  | format (gap : Gap) (name : Name) (gap' : Gap) (id : ExternalId) (trail : Space)
  | publicFormat (gap : Gap) (name : Name) (gap' gap'' : Gap) (id : Literal) (trail : Space)
  | misc (m : Misc)
  | parameterReference (name : Name)

def Declaration.pieces : Declaration → List Piece
  | .element gap name spec =>
    [.markup ("<!ELEMENT".toList ++ gap.chars ++ name.text ++ spec.chars ++ ['>'])]
  | .attlist gap name defs trail =>
    .markup ("<!ATTLIST".toList ++ gap.chars ++ name.text) :: defs.flatMap AttDef.pieces ++
      [.markup (trail.chars ++ ['>'])]
  | .entity gap parameter name gap' value trail =>
    .markup ("<!ENTITY".toList ++ gap.chars ++ (parameter.elim [] fun g => '%' :: g.chars) ++
      name.text ++ gap'.chars) :: value.pieces ++ [.markup (trail.chars ++ ['>'])]
  | .format gap name gap' id trail =>
    .markup ("<!NOTATION".toList ++ gap.chars ++ name.text ++ gap'.chars) :: id.pieces ++
      [.markup (trail.chars ++ ['>'])]
  | .publicFormat gap name gap' gap'' id trail =>
    .markup ("<!NOTATION".toList ++ gap.chars ++ name.text ++ gap'.chars ++ "PUBLIC".toList ++
      gap''.chars) :: id.pieces ++ [.markup (trail.chars ++ ['>'])]
  | .misc m => m.pieces
  | .parameterReference name => [.markup ('%' :: name.text ++ [';'])]

structure Doctype where
  gap : Gap
  name : Name
  externalId : Option (Gap × ExternalId)
  trail : Space
  subset : Option (List Declaration × Space)

def Doctype.pieces (d : Doctype) : List Piece :=
  .markup ("<!DOCTYPE".toList ++ d.gap.chars ++ d.name.text) ::
    (d.externalId.elim [] fun p => .markup p.1.chars :: p.2.pieces) ++ .markup d.trail.chars ::
      (d.subset.elim [] fun p => .markup ['['] :: p.1.flatMap Declaration.pieces ++
        [.markup (']' :: p.2.chars)]) ++ [.markup ['>']]

/-! ## Documents -/

structure Document where
  /-- What stands between `<?xml` and `?>`. -/
  declaration : Option (Text ['&', '<', '>'])
  misc : List Misc
  doctype : Option (Doctype × List Misc)
  root : Element
  trailing : List Misc

def Document.pieces (d : Document) : List Piece :=
  (d.declaration.elim [] fun t => [.markup ("<?xml".toList ++ t.chars ++ ['?', '>'])]) ++
    d.misc.flatMap Misc.pieces ++
    (d.doctype.elim [] fun p => p.1.pieces ++ p.2.flatMap Misc.pieces) ++ d.root.pieces ++
    d.trailing.flatMap Misc.pieces

/-- The text of a document. -/
def Document.render (d : Document) : List Char := write d.pieces

/-! ## Where an ampersand may stand -/

@[simp]
theorem plain_nil : Plain [] := by simp [Plain]

@[simp]
theorem plain_cons {p : Piece} {ps : List Piece} : Plain (p :: ps) ↔ p.Plain ∧ Plain ps := by
  simp [Plain]

@[simp]
theorem plain_append {ps qs : List Piece} : Plain (ps ++ qs) ↔ Plain ps ∧ Plain qs := by
  simp [Plain, or_imp, forall_and]

theorem plain_flatMap {α : Type} {f : α → List Piece} {l : List α} (h : ∀ a, Plain (f a)) :
    Plain (l.flatMap f) := by
  intro p hp
  obtain ⟨a, -, ha⟩ := List.mem_flatMap.mp hp
  exact h a p ha

theorem plain_elim {α : Type} {f : α → List Piece} {o : Option α} (h : ∀ a, Plain (f a)) :
    Plain (o.elim [] f) := by
  cases o with
  | none => simp
  | some a => exact h a

@[simp]
theorem plain_markup {text : List Char} : (Piece.markup text).Plain ↔ '&' ∉ text := Iff.rfl

@[simp]
theorem plain_reference (r : Reference) : (Piece.reference r).Plain := trivial

@[simp]
theorem plain_raw (body : List Char) (closing : Closing) : (Piece.raw body closing).Plain := trivial

@[simp]
theorem Name.amp_not_mem (n : Name) : '&' ∉ n.text := by
  intro h
  have hvalid := n.valid _ h
  revert hvalid
  decide

@[simp]
theorem Space.amp_not_mem (s : Space) : '&' ∉ s.chars := by
  intro h
  have hvalid := s.valid _ h
  revert hvalid
  decide

theorem Text.amp_not_mem {stop : List Char} (h : '&' ∈ stop) (t : Text stop) : '&' ∉ t.chars :=
  fun hmem => (t.valid _ hmem).2 h

@[simp]
theorem Quote.amp_ne_char (q : Quote) : '&' ≠ q.char := by
  cases q <;> decide

@[simp]
theorem Value.plain {stop : List Char} (v : Value stop) : Plain v.pieces := by
  have hparts : Plain (v.parts.map Part.piece) := by
    intro p hp
    obtain ⟨part, -, rfl⟩ := List.mem_map.mp hp
    cases part with
    | text t => exact t.amp_not_mem List.mem_cons_self
    | reference r => trivial
  simp [Value.pieces, hparts]

@[simp]
theorem Literal.plain (l : Literal) : Plain l.pieces := by simp [Literal.pieces]

@[simp]
theorem Misc.plain (m : Misc) : Plain m.pieces := by
  cases m with
  | comment c => simp [Misc.pieces, Comment.pieces]
  | instruction i => simp [Misc.pieces, Instruction.pieces]
  | space s => simp [Misc.pieces]

@[simp]
theorem Tag.plain (tag : Tag) : Plain tag.pieces := by
  have hattributes : Plain (tag.attributes.flatMap Attribute.pieces) :=
    plain_flatMap fun a => by simp [Attribute.pieces]
  simp [Tag.pieces, hattributes]

@[simp]
theorem Content.plain (c : Content) : Plain c.pieces := by
  induction c with
  | done => simp [Content.pieces]
  | text t rest ih => simp [Content.pieces, ih, t.amp_not_mem]
  | reference r rest ih => simp [Content.pieces, ih]
  | cdata c rest ih => simp [Content.pieces, CData.pieces, ih]
  | misc m rest ih => simp [Content.pieces, ih]
  | emptyElement tag rest ih => simp [Content.pieces, ih]
  | element tag content trail rest ihcontent ih =>
    simp [Content.pieces, endTag, ihcontent, ih]

@[simp]
theorem Element.plain (e : Element) : Plain e.pieces := by
  cases e <;> exact Content.plain _

@[simp]
theorem ExternalId.plain (id : ExternalId) : Plain id.pieces := by
  cases id <;> simp [ExternalId.pieces]

@[simp]
theorem AttDef.plain (d : AttDef) : Plain d.pieces := by
  have htype := d.type.amp_not_mem List.mem_cons_self
  cases hdefault : d.default with
  | required => simp [AttDef.pieces, AttDefault.pieces, hdefault, htype]
  | implied => simp [AttDef.pieces, AttDefault.pieces, hdefault, htype]
  | value fixed v => cases fixed <;> simp [AttDef.pieces, AttDefault.pieces, hdefault, htype]

@[simp]
theorem EntityDef.plain (d : EntityDef) : Plain d.pieces := by
  cases d with
  | value v => exact v.plain
  | external id ndata => cases ndata <;> simp [EntityDef.pieces]

@[simp]
theorem Declaration.plain (d : Declaration) : Plain d.pieces := by
  cases d with
  | element gap name spec => simp [Declaration.pieces, spec.amp_not_mem]
  | attlist gap name defs trail =>
    have hdefs : Plain (defs.flatMap AttDef.pieces) := plain_flatMap AttDef.plain
    simp [Declaration.pieces, hdefs]
  | entity gap parameter name gap' value trail =>
    cases parameter <;> simp [Declaration.pieces]
  | format gap name gap' id trail => simp [Declaration.pieces]
  | publicFormat gap name gap' gap'' id trail => simp [Declaration.pieces]
  | misc m => exact m.plain
  | parameterReference name => simp [Declaration.pieces]

@[simp]
theorem Doctype.plain (d : Doctype) : Plain d.pieces := by
  have hexternal : Plain (d.externalId.elim [] fun p => .markup p.1.chars :: p.2.pieces) :=
    plain_elim fun p => by simp
  have hsubset : Plain (d.subset.elim [] fun p => .markup ['['] ::
      p.1.flatMap Declaration.pieces ++ [.markup (']' :: p.2.chars)]) :=
    plain_elim fun p => by
      have hdeclarations : Plain (p.1.flatMap Declaration.pieces) := plain_flatMap Declaration.plain
      simp [hdeclarations]
  unfold Doctype.pieces
  rw [plain_append, plain_append, plain_cons, plain_cons]
  exact ⟨⟨⟨by simp, hexternal⟩, by simp, hsubset⟩, by simp⟩

/-- Outside references and raw text a document has no `&`. -/
theorem Document.plain (d : Document) : Plain d.pieces := by
  have hmisc : ∀ ms : List Misc, Plain (ms.flatMap Misc.pieces) :=
    fun ms => plain_flatMap Misc.plain
  unfold Document.pieces
  rw [plain_append, plain_append, plain_append, plain_append]
  refine ⟨⟨⟨⟨plain_elim fun t => ?_, hmisc _⟩, plain_elim fun p => ?_⟩, d.root.plain⟩, hmisc _⟩
  · simp [t.amp_not_mem]
  · simp [hmisc]

end Lib.Xml
