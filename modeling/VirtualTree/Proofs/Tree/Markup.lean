import Mathlib.Data.List.Chain
import Mathlib.Data.List.TakeWhile
import VirtualTree.Proofs.Tree.Build
import VirtualTree.Tree.Markup

/-!
# Reading markup back

The written form of an element tells everything that is written of it (`toXml_eq_iff`), if below it stand
only elements, attributes and texts, no text is empty or next to another, and names are words, so that
tags can be taken apart (`Legible`).  How a written name divides into qualifier and local part, and its
namespace, are not written, so trees are compared by `Tree.asWritten`.

Two written forms with anything behind them are equal only if the trees are written alike and the same
stands behind them (`Legible.tellsApart`): a name goes on to the next delimiter, a value to the next
quote, a text to the next tag, and a list of children to the next end tag.
-/

namespace VirtualTree

/-! ## Runs of characters -/

/-- A run of entries with `p` ends where the first entry without it stands. -/
theorem append_inj_of_run {α : Type} {p : α → Bool} {x y r s : List α} (hx : ∀ c ∈ x, p c)
    (hy : ∀ c ∈ y, p c) (hr : ∀ c ∈ r.head?, ¬ p c) (hs : ∀ c ∈ s.head?, ¬ p c)
    (h : x ++ r = y ++ s) : x = y ∧ r = s := by
  have run {x r : List α} (hx : ∀ c ∈ x, p c) (hr : ∀ c ∈ r.head?, ¬ p c) :
      (x ++ r).takeWhile p = x := by
    have none : r.takeWhile p = [] := by
      cases r with
      | nil => rfl
      | cons c r => exact List.takeWhile_cons_of_neg (hr c rfl)
    rw [List.takeWhile_append_of_pos hx, none, List.append_nil]
  obtain rfl : x = y := by rw [← run hx hr, h, run hy hs]
  exact ⟨rfl, List.append_cancel_left h⟩

/-! ## Escapes -/

/-- The symbol that a code begins with can be told, whatever stands behind the code. -/
structure IsPrefixCode {α β : Type} (code : α → List β) : Prop where
  ne_nil : ∀ a, code a ≠ []
  inj : ∀ {a b r s}, code a ++ r = code b ++ s → a = b ∧ r = s

theorem IsPrefixCode.flatMap_inj {α β : Type} {code : α → List β} (h : IsPrefixCode code)
    {x y : List α} (eq : x.flatMap code = y.flatMap code) : x = y := by
  induction x generalizing y with
  | nil =>
    cases y with
    | nil => rfl
    | cons b y => exact absurd (List.append_eq_nil_iff.1 eq.symm).1 (h.ne_nil b)
  | cons a x ih =>
    cases y with
    | nil => exact absurd (List.append_eq_nil_iff.1 eq).1 (h.ne_nil a)
    | cons b y =>
      obtain ⟨rfl, rest⟩ := h.inj eq
      rw [ih rest]

theorem isPrefixCode_escapeText : IsPrefixCode escapeText where
  ne_nil c := by
    unfold escapeText
    split <;> simp
  inj {c e r s} h := by
    unfold escapeText at h
    split at h <;> split at h <;> grind

theorem isPrefixCode_escapeValue : IsPrefixCode escapeValue where
  ne_nil c := by
    unfold escapeValue
    split_ifs
    · simp
    · exact isPrefixCode_escapeText.ne_nil c
  inj {c e r s} h := by
    -- The code of the quote is no code of character data.
    have apart {e : Char} {r s : List Char} (ne : e ≠ '"') :
        "&quot;".toList ++ r ≠ escapeText e ++ s := fun eq => by
      unfold escapeText at eq
      split at eq <;> grind
    unfold escapeValue at h
    split_ifs at h with hc he he
    · exact ⟨hc.trans he.symm, List.append_cancel_left h⟩
    · exact absurd h (apart he)
    · exact absurd h.symm (apart hc)
    · exact isPrefixCode_escapeText.inj h

theorem ne_of_mem_escapedText {data : String} {c : Char} (h : c ∈ data.toList.flatMap escapeText) :
    c ≠ '<' := by
  obtain ⟨e, -, mem⟩ := List.mem_flatMap.1 h
  unfold escapeText at mem
  split at mem <;> grind

theorem ne_of_mem_escapedValue {value : String} {c : Char}
    (h : c ∈ value.toList.flatMap escapeValue) : c ≠ '"' := by
  obtain ⟨e, -, mem⟩ := List.mem_flatMap.1 h
  unfold escapeValue escapeText at mem
  split_ifs at mem
  · grind
  · split at mem <;> grind

/-! ## Trees as they are written -/

/-- The characters that no name may have if tags are to be taken apart.  Of all white space only the
space is written inside a tag. -/
def delimiters : List Char := [' ', '<', '>', '/', '=', '&', '"']

/-- The written form of the name is a word: it is not empty and has no delimiter. -/
structure Name.IsWord (n : Name) : Prop where
  ne_empty : n.written ≠ ""
  clear : ∀ c ∈ n.written.toList, c ∉ delimiters

/-- A word goes on to the next delimiter. -/
theorem Name.IsWord.inj {n m : Name} (hn : n.IsWord) (hm : m.IsWord) {r s : List Char}
    (hr : ∀ c ∈ r.head?, c ∈ delimiters) (hs : ∀ c ∈ s.head?, c ∈ delimiters)
    (h : n.written.toList ++ r = m.written.toList ++ s) : n.written = m.written ∧ r = s := by
  obtain ⟨names, rest⟩ := append_inj_of_run (p := fun c => c ∉ delimiters)
    (fun c hc => decide_eq_true (hn.clear c hc)) (fun c hc => decide_eq_true (hm.clear c hc))
    (fun c hc clear => of_decide_eq_true clear (hr c hc))
    (fun c hc clear => of_decide_eq_true clear (hs c hc)) h
  exact ⟨String.toList_injective names, rest⟩

/-- The label with its written name for a name. -/
def Label.asWritten : Label → Label
  | .element name => .element (.unqualified name.written)
  | .attribute name value => .attribute (.unqualified name.written) value
  | label => label

namespace Tree

mutual

/-- The tree with written names for the names of its elements and attributes. -/
def asWritten : Tree → Tree
  | .node label attributes children =>
    .node label.asWritten (allAsWritten attributes) (allAsWritten children)

/-- The trees with written names for the names of their elements and attributes. -/
def allAsWritten : List Tree → List Tree
  | [] => []
  | t :: ts => t.asWritten :: allAsWritten ts

end

theorem allAsWritten_eq (ts : List Tree) : allAsWritten ts = ts.map asWritten := by
  induction ts with
  | nil => rfl
  | cons t ts ih => rw [allAsWritten, ih, List.map_cons]

theorem asWritten_node (label : Label) (attributes children : List Tree) :
    (node label attributes children).asWritten =
      .node label.asWritten (attributes.map asWritten) (children.map asWritten) := by
  rw [asWritten, allAsWritten_eq, allAsWritten_eq]

theorem markupAll_cons (t : Tree) (ts : List Tree) : markupAll (t :: ts) = t.markup ++ markupAll ts :=
  rfl

theorem attributesMarkup_cons (t : Tree) (ts : List Tree) :
    attributesMarkup (t :: ts) = ' ' :: (t.markup ++ attributesMarkup ts) := rfl

/-- What stands behind the attributes of an element with the given written name. -/
def contentMarkup (name : String) (children : List Tree) : List Char :=
  if children.isEmpty then ['/', '>']
  else '>' :: (markupAll children ++ '<' :: '/' :: (name.toList ++ ['>']))

theorem markup_element (name : Name) (attributes children : List Tree) :
    (node (.element name) attributes children).markup =
      '<' :: (name.written.toList ++
        (attributesMarkup attributes ++ contentMarkup name.written children)) := by
  cases children with
  | nil => exact (List.cons_append).trans (congrArg _ (List.append_assoc ..))
  | cons c cs =>
    show '<' :: name.written.toList ++ attributesMarkup attributes ++ '>' :: markupAll (c :: cs) ++
      '<' :: '/' :: name.written.toList ++ ['>'] = _
    simp only [contentMarkup, List.isEmpty_cons, List.cons_append, List.append_assoc]
    rfl

mutual

/-- What is left out of a tree as it is written is not written. -/
theorem markup_asWritten : (t : Tree) → t.asWritten.markup = t.markup
  | .node label attributes children => by
    rw [asWritten_node]
    cases label with
    | document => exact markupAll_asWritten children
    | element name =>
      rw [Label.asWritten, markup_element, markup_element, attributesMarkup_asWritten attributes,
        contentMarkup, contentMarkup, markupAll_asWritten children, List.isEmpty_map]
      rfl
    | documentType | «attribute» | text | comment | processingInstruction => rfl

theorem markupAll_asWritten : (ts : List Tree) → markupAll (ts.map asWritten) = markupAll ts
  | [] => rfl
  | t :: ts => by
    rw [List.map_cons, markupAll_cons, markupAll_cons, markup_asWritten t, markupAll_asWritten ts]

theorem attributesMarkup_asWritten :
    (ts : List Tree) → attributesMarkup (ts.map asWritten) = attributesMarkup ts
  | [] => rfl
  | t :: ts => by
    rw [List.map_cons, attributesMarkup_cons, attributesMarkup_cons, markup_asWritten t,
      attributesMarkup_asWritten ts]

end

/-- The tree of an element of which the written form tells everything, or a part of such a tree. -/
inductive Legible : Tree → Prop
  | ofAttribute {name : Name} {value : String} (word : name.IsWord) :
    Legible (.leaf (.attribute name value))
  | ofText {data : String} (ne_empty : data ≠ "") : Legible (.leaf (.text data))
  | ofElement {name : Name} {attributes children : List Tree} (word : name.IsWord)
    (isAttribute : ∀ t ∈ attributes, t.kind = .attribute)
    (isChild : ∀ t ∈ children, t.kind ≠ .attribute)
    (separate : children.IsChain fun t u => ¬ (t.kind = .text ∧ u.kind = .text))
    (below : ∀ t ∈ attributes ++ children, Legible t) :
    Legible (.node (.element name) attributes children)

theorem Legible.exists_of_attribute {t : Tree} (h : t.Legible) (kind : t.kind = .attribute) :
    ∃ name value, t = .leaf (.attribute name value) ∧ name.IsWord := by
  cases h with
  | ofAttribute word => exact ⟨_, _, rfl, word⟩
  | ofText | ofElement => cases kind

/-! ## Taking tags apart -/

theorem attributeMarkup_inj {n m : Name} (hn : n.IsWord) (hm : m.IsWord) {v w : String}
    {r s : List Char} (h : attributeMarkup n v ++ r = attributeMarkup m w ++ s) :
    n.written = m.written ∧ v = w ∧ r = s := by
  simp only [attributeMarkup, List.append_assoc, List.cons_append] at h
  obtain ⟨names, rest⟩ := hn.inj hm (by simp [delimiters]) (by simp [delimiters]) h
  obtain ⟨values, rest⟩ := append_inj_of_run (p := (· ≠ '"'))
    (fun c hc => decide_eq_true (ne_of_mem_escapedValue hc))
    (fun c hc => decide_eq_true (ne_of_mem_escapedValue hc)) (by simp) (by simp)
    (List.cons.inj (List.cons.inj rest).2).2
  exact ⟨names, String.toList_injective (isPrefixCode_escapeValue.flatMap_inj values),
    (List.cons.inj rest).2⟩

/-- Behind the attributes of an element stands no further space. -/
theorem attributesMarkup_inj {as bs : List Tree} (ha : ∀ t ∈ as, t.Legible ∧ t.kind = .attribute)
    (hb : ∀ t ∈ bs, t.Legible ∧ t.kind = .attribute) {r s : List Char} (hr : r.head? ≠ some ' ')
    (hs : s.head? ≠ some ' ') (h : attributesMarkup as ++ r = attributesMarkup bs ++ s) :
    as.map asWritten = bs.map asWritten ∧ r = s := by
  induction as generalizing bs with
  | nil =>
    cases bs with
    | nil => exact ⟨rfl, h⟩
    | cons b bs => exact absurd (congrArg List.head? h) hr
  | cons a as ih =>
    cases bs with
    | nil => exact absurd (congrArg List.head? h).symm hs
    | cons b bs =>
      obtain ⟨⟨legible, kind⟩, restA⟩ := List.forall_mem_cons.1 ha
      obtain ⟨⟨legible', kind'⟩, restB⟩ := List.forall_mem_cons.1 hb
      obtain ⟨n, v, rfl, hn⟩ := legible.exists_of_attribute kind
      obtain ⟨m, w, rfl, hm⟩ := legible'.exists_of_attribute kind'
      simp only [attributesMarkup_cons, List.cons_append, List.append_assoc] at h
      obtain ⟨names, rfl, rest⟩ := attributeMarkup_inj hn hm (List.cons.inj h).2
      obtain ⟨same, rest⟩ := ih restA restB rest
      refine ⟨?_, rest⟩
      rw [List.map_cons, List.map_cons, same, leaf, leaf, asWritten_node, asWritten_node,
        Label.asWritten, Label.asWritten, names]

/-! ## Taking content apart -/

/-- A text goes on to the next tag. -/
def EndsBefore (t : Tree) (r : List Char) : Prop := t.kind = .text → r.head? = some '<'

theorem head?_markup_element (name : Name) (attributes children : List Tree) (r : List Char) :
    ((node (.element name) attributes children).markup ++ r).head? = some '<' := by
  rw [markup_element]
  rfl

theorem head?_markup_text {data : String} (h : data ≠ "") (r : List Char) :
    ∃ c, ((leaf (.text data)).markup ++ r).head? = some c ∧ c ≠ '<' := by
  obtain ⟨c, rest, eq⟩ : ∃ c rest, data.toList.flatMap escapeText = c :: rest := by
    refine List.exists_cons_of_ne_nil fun none => h ?_
    exact String.toList_eq_nil_iff.1 (isPrefixCode_escapeText.flatMap_inj (y := []) none)
  have markup : (leaf (.text data)).markup = c :: rest := eq
  exact ⟨c, by rw [markup]; rfl, ne_of_mem_escapedText (eq ▸ List.mem_cons_self)⟩

/-- No child begins like an end tag. -/
theorem Legible.not_endTag {t : Tree} (h : t.Legible) (child : t.kind ≠ .attribute)
    (r s : List Char) : t.markup ++ r ≠ '<' :: '/' :: s := by
  intro eq
  cases h with
  | ofAttribute => exact child rfl
  | @ofText data ne_empty =>
    obtain ⟨c, head, ne⟩ := head?_markup_text ne_empty r
    rw [eq] at head
    exact ne (Option.some.inj head).symm
  | @ofElement name attributes children word =>
    rw [markup_element] at eq
    obtain ⟨c, rest, written⟩ := List.exists_cons_of_ne_nil
      fun none => word.ne_empty (String.toList_eq_nil_iff.1 none)
    rw [written] at eq
    obtain ⟨rfl, -⟩ := List.cons.inj (List.cons.inj eq).2
    exact word.clear '/' (written ▸ List.mem_cons_self) (by decide)

/-- The children of an element of which the written form tells everything. -/
structure LegibleContent (ts : List Tree) : Prop where
  legible : ∀ t ∈ ts, t.Legible
  child : ∀ t ∈ ts, t.kind ≠ .attribute
  separate : ts.IsChain fun t u => ¬ (t.kind = .text ∧ u.kind = .text)

theorem LegibleContent.tail {t : Tree} {ts : List Tree} (h : LegibleContent (t :: ts)) :
    LegibleContent ts where
  legible := (List.forall_mem_cons.1 h.legible).2
  child := (List.forall_mem_cons.1 h.child).2
  separate := (List.isChain_cons.1 h.separate).2

/-- Behind a text stands another element or the end tag. -/
theorem LegibleContent.endsBefore {t : Tree} {ts : List Tree} (h : LegibleContent (t :: ts))
    (r : List Char) : t.EndsBefore (markupAll ts ++ '<' :: r) := by
  intro text
  cases ts with
  | nil => rfl
  | cons u us =>
    have notText : u.kind ≠ .text := fun kind => (List.isChain_cons.1 h.separate).1 u rfl ⟨text, kind⟩
    have notAttribute := h.tail.child u List.mem_cons_self
    rw [markupAll_cons, List.append_assoc]
    cases h.tail.legible u List.mem_cons_self with
    | ofAttribute => exact absurd rfl notAttribute
    | ofText => exact absurd rfl notText
    | ofElement => exact head?_markup_element ..

/-- Two written forms with anything behind them are equal only if the trees are written alike. -/
def TellsApart (t : Tree) : Prop :=
  ∀ (u : Tree) (r s : List Char), u.Legible → u.kind ≠ .attribute → t.EndsBefore r → u.EndsBefore s →
    t.markup ++ r = u.markup ++ s → t.asWritten = u.asWritten ∧ r = s

/-- Children go on to the end tag. -/
theorem LegibleContent.inj {ts us : List Tree} (ht : LegibleContent ts) (hu : LegibleContent us)
    (each : ∀ t ∈ ts, t.TellsApart) {r s : List Char}
    (h : markupAll ts ++ '<' :: '/' :: r = markupAll us ++ '<' :: '/' :: s) :
    ts.map asWritten = us.map asWritten ∧ r = s := by
  induction ts generalizing us with
  | nil =>
    cases us with
    | nil => exact ⟨rfl, (List.cons.inj (List.cons.inj h).2).2⟩
    | cons u us =>
      rw [markupAll_cons, List.append_assoc] at h
      exact absurd h.symm
        ((hu.legible u List.mem_cons_self).not_endTag (hu.child u List.mem_cons_self) _ _)
  | cons t ts ih =>
    cases us with
    | nil =>
      rw [markupAll_cons, List.append_assoc] at h
      exact absurd h
        ((ht.legible t List.mem_cons_self).not_endTag (ht.child t List.mem_cons_self) _ _)
    | cons u us =>
      obtain ⟨first, others⟩ := List.forall_mem_cons.1 each
      rw [markupAll_cons, markupAll_cons, List.append_assoc, List.append_assoc] at h
      obtain ⟨same, rest⟩ := first u _ _ (hu.legible u List.mem_cons_self)
        (hu.child u List.mem_cons_self) (ht.endsBefore _) (hu.endsBefore _) h
      obtain ⟨alike, rest⟩ := ih ht.tail hu.tail others rest
      exact ⟨by rw [List.map_cons, List.map_cons, same, alike], rest⟩

theorem contentMarkup_cons (name : String) (t : Tree) (ts : List Tree) (r : List Char) :
    contentMarkup name (t :: ts) ++ r =
      '>' :: (markupAll (t :: ts) ++ '<' :: '/' :: (name.toList ++ '>' :: r)) := by
  rw [contentMarkup, List.isEmpty_cons, if_neg Bool.false_ne_true]
  simp only [List.cons_append, List.append_assoc, List.nil_append]

/-- The attributes go on to a slash or an angle bracket. -/
theorem exists_contentMarkup (name : String) (ts : List Tree) (r : List Char) :
    ∃ c rest, contentMarkup name ts ++ r = c :: rest ∧ (c = '/' ∨ c = '>') := by
  cases ts with
  | nil => exact ⟨_, _, rfl, Or.inl rfl⟩
  | cons t ts => exact ⟨_, _, contentMarkup_cons .., Or.inr rfl⟩

theorem contentMarkup_inj {name : String} {ts us : List Tree} (ht : LegibleContent ts)
    (hu : LegibleContent us) (each : ∀ t ∈ ts, t.TellsApart) {r s : List Char}
    (h : contentMarkup name ts ++ r = contentMarkup name us ++ s) :
    ts.map asWritten = us.map asWritten ∧ r = s := by
  cases ts with
  | nil =>
    cases us with
    | nil => exact ⟨rfl, List.append_cancel_left h⟩
    | cons u us => exact absurd (List.cons.inj h).1 (by decide)
  | cons t ts =>
    cases us with
    | nil => exact absurd (List.cons.inj h).1 (by decide)
    | cons u us =>
      rw [contentMarkup_cons, contentMarkup_cons] at h
      obtain ⟨alike, rest⟩ := ht.inj hu each (List.cons.inj h).2
      exact ⟨alike, (List.cons.inj (List.append_cancel_left rest)).2⟩

/-- What stands behind the name of an element begins with a delimiter. -/
theorem head?_behindName (name : String) (attributes children : List Tree) (r : List Char) :
    ∀ c ∈ (attributesMarkup attributes ++ (contentMarkup name children ++ r)).head?,
      c ∈ delimiters := by
  cases attributes with
  | nil =>
    obtain ⟨c, rest, eq, kind⟩ := exists_contentMarkup name children r
    rw [eq]
    rintro _ ⟨⟩
    rcases kind with rfl | rfl <;> decide
  | cons a as =>
    rintro _ ⟨⟩
    decide

theorem head?_contentMarkup_ne (name : String) (ts : List Tree) (r : List Char) :
    (contentMarkup name ts ++ r).head? ≠ some ' ' := by
  obtain ⟨c, rest, eq, kind⟩ := exists_contentMarkup name ts r
  rw [eq]
  rcases kind with rfl | rfl <;> simp

/-! ## Whole trees -/

theorem Legible.tellsApart {t : Tree} (h : t.Legible) (child : t.kind ≠ .attribute) :
    t.TellsApart := by
  induction h with
  | ofAttribute => exact absurd rfl child
  | @ofText data ne_empty =>
    intro u r s hu child' ends ends' eq
    cases hu with
    | ofAttribute => exact absurd rfl child'
    | @ofText data' ne_empty' =>
      obtain ⟨texts, rest⟩ := append_inj_of_run (p := (· ≠ '<'))
        (fun c hc => decide_eq_true (ne_of_mem_escapedText hc))
        (fun c hc => decide_eq_true (ne_of_mem_escapedText hc))
        (by simp [ends rfl]) (by simp [ends' rfl]) eq
      rw [String.toList_injective (isPrefixCode_escapeText.flatMap_inj texts)]
      exact ⟨rfl, rest⟩
    | ofElement =>
      obtain ⟨c, head, ne⟩ := head?_markup_text ne_empty r
      rw [eq, head?_markup_element] at head
      exact absurd (Option.some.inj head).symm ne
  | @ofElement name attributes children word isAttribute isChild separate below ih =>
    intro u r s hu child' ends ends' eq
    cases hu with
    | ofAttribute => exact absurd rfl child'
    | ofText ne_empty' =>
      obtain ⟨c, head, ne⟩ := head?_markup_text ne_empty' s
      rw [← eq, head?_markup_element] at head
      exact absurd (Option.some.inj head).symm ne
    | @ofElement name' attributes' children' word' isAttribute' isChild' separate' below' =>
      rw [List.forall_mem_append] at below below' ih
      simp only [markup_element, List.cons_append, List.append_assoc] at eq
      obtain ⟨names, rest⟩ := word.inj word' (head?_behindName _ _ _ _) (head?_behindName _ _ _ _)
        (List.cons.inj eq).2
      obtain ⟨sameAttributes, rest⟩ := attributesMarkup_inj
        (fun a ha => ⟨below.1 a ha, isAttribute a ha⟩) (fun a ha => ⟨below'.1 a ha, isAttribute' a ha⟩)
        (head?_contentMarkup_ne _ _ _) (head?_contentMarkup_ne _ _ _) rest
      rw [names] at rest
      obtain ⟨sameChildren, rest⟩ := contentMarkup_inj ⟨below.2, isChild, separate⟩
        ⟨below'.2, isChild', separate'⟩ (fun t ht => ih.2 t ht (isChild t ht)) rest
      rw [asWritten_node, asWritten_node, Label.asWritten, Label.asWritten, names, sameAttributes,
        sameChildren]
      exact ⟨rfl, rest⟩

/-- Elements with equal written forms are written alike. -/
theorem Legible.asWritten_eq_iff {t u : Tree} (ht : t.Legible) (hu : u.Legible)
    (kind : t.kind = .element) (kind' : u.kind = .element) :
    t.toXml = u.toXml ↔ t.asWritten = u.asWritten := by
  have notText {t : Tree} (h : t.kind = .element) : t.EndsBefore [] := fun text => by
    rw [h] at text
    cases text
  constructor
  · intro eq
    refine (ht.tellsApart (by rw [kind]; decide) u [] [] hu (by rw [kind']; decide) (notText kind)
      (notText kind') ?_).1
    rw [List.append_nil, List.append_nil]
    exact String.ofList_injective eq
  · intro same
    rw [toXml, toXml, ← markup_asWritten t, same, markup_asWritten]

end Tree

/-! ## Elements of a document -/

instance (n : Name) : Decidable n.IsWord :=
  have : Decidable (∀ c ∈ n.written.toList, c ∉ delimiters) := List.decidableBAll ..
  decidable_of_iff (n.written ≠ "" ∧ ∀ c ∈ n.written.toList, c ∉ delimiters)
    ⟨fun ⟨ne_empty, clear⟩ => ⟨ne_empty, clear⟩, fun ⟨ne_empty, clear⟩ => ⟨ne_empty, clear⟩⟩

namespace Document

variable {d : Document}

/-- The node is an element or an attribute with a word for a name, or a text that is not empty, and no
two of its children that stand next to each other are texts. -/
structure LegibleAt (d : Document) (i : NodeId) : Prop where
  kind : d.kind i = .element ∨ d.kind i = .attribute ∨ d.kind i = .text
  word : ∀ name ∈ d.name? i, name.IsWord
  ne_empty : d.label i ≠ .text ""
  separate : (d.children i).IsChain fun a b => ¬ (d.kind a = .text ∧ d.kind b = .text)

instance (d : Document) (i : NodeId) : Decidable (d.LegibleAt i) :=
  decidable_of_iff ((d.kind i = .element ∨ d.kind i = .attribute ∨ d.kind i = .text) ∧
      (∀ name ∈ d.name? i, name.IsWord) ∧ d.label i ≠ .text "" ∧
      (d.children i).IsChain fun a b => ¬ (d.kind a = .text ∧ d.kind b = .text))
    ⟨fun ⟨kind, word, ne_empty, separate⟩ => ⟨kind, word, ne_empty, separate⟩,
      fun ⟨kind, word, ne_empty, separate⟩ => ⟨kind, word, ne_empty, separate⟩⟩

/-- Below a node that is neither an element nor a document stands nothing. -/
theorem WellFormed.tree_eq_leaf (wf : d.WellFormed) {id : NodeId} (h : (d.kind id).isParent = false) :
    d.tree id = .leaf (d.label id) := by
  have attributes : d.attributes id = [] := List.eq_nil_iff_forall_not_mem.2 fun a ha => by
    rw [wf.isElement a id (wf.parent_of_mem_attributes ha) (wf.kind_of_mem_attributes ha)] at h
    cases h
  have children : d.children id = [] := List.eq_nil_iff_forall_not_mem.2 fun c hc => by
    rw [wf.isParent c id (wf.parent_of_mem_children hc) (wf.kind_of_mem_children hc)] at h
    cases h
  rw [wf.tree_eq, attributes, children]
  rfl

theorem WellFormed.legible_tree (wf : d.WellFormed) {id : NodeId}
    (h : ∀ i, d.AtOrAbove i id → d.LegibleAt i) : (d.tree id).Legible := by
  induction hn : d.room id using Nat.strong_induction_on generalizing id with
  | h n ih =>
    obtain ⟨kind, word, ne_empty, separate⟩ := h id (.refl id)
    have below : ∀ c, d.parent? c = some id → (d.tree c).Legible := fun c hc =>
      ih _ (hn ▸ wf.room_lt hc) (fun i hi => h i (hi.tail hc)) rfl
    cases label : d.label id with
    | document | documentType | comment | processingInstruction =>
      simp [Document.kind, label, Label.kind] at kind
    | «attribute» name value =>
      rw [wf.tree_eq_leaf (by rw [Document.kind, label]; rfl), label]
      exact .ofAttribute (word name (by rw [name?, label]; rfl))
    | text data =>
      rw [wf.tree_eq_leaf (by rw [Document.kind, label]; rfl), label]
      exact .ofText fun empty => ne_empty (by rw [label, empty])
    | element name =>
      rw [wf.tree_eq, label]
      refine .ofElement (word name (by rw [name?, label]; rfl)) (List.forall_mem_map.2 fun a ha => ?_)
        (List.forall_mem_map.2 fun c hc => ?_) ?_ (List.forall_mem_append.2
          ⟨List.forall_mem_map.2 fun a ha => below a (wf.parent_of_mem_attributes ha),
            List.forall_mem_map.2 fun c hc => below c (wf.parent_of_mem_children hc)⟩)
      · rw [kind_tree wf]
        exact wf.kind_of_mem_attributes ha
      · rw [kind_tree wf]
        exact wf.kind_of_mem_children hc
      · rw [List.isChain_map]
        simpa only [kind_tree wf] using separate

/-- Elements that have only elements, attributes and texts below them, where names are words and texts
neither empty nor next to each other, have the same written form just if they have the same structure,
the same written names, the same attributes in the same order and the same texts. -/
theorem toXml_eq_iff {e : Document} (wf : d.WellFormed) (wf' : e.WellFormed) {a b : NodeId}
    (kind : d.kind a = .element) (kind' : e.kind b = .element)
    (legible : ∀ i, d.AtOrAbove i a → d.LegibleAt i)
    (legible' : ∀ i, e.AtOrAbove i b → e.LegibleAt i) :
    d.toXml a = e.toXml b ↔ (d.tree a).asWritten = (e.tree b).asWritten :=
  (wf.legible_tree legible).asWritten_eq_iff (wf'.legible_tree legible')
    ((kind_tree wf a).trans kind) ((kind_tree wf' b).trans kind')

/-- It makes no difference how a written name is divided or where the element stands. -/
theorem toXml_of_divided_name :
    let content (name : Name) : Tree := .node (.element name)
      [.leaf (.attribute (.unqualified "a") "1\"<")]
      [.leaf (.text "b<c/>"), .leaf (.element (.unqualified "y")), .leaf (.text "&lt;")]
    let d := holding (content ⟨some "p", "x", some "u"⟩)
    let e := holding (.node (.element (.unqualified "w")) []
      [.leaf (.text "t"), content ⟨none, "p:x", none⟩])
    d.WellFormed ∧ e.WellFormed ∧ d.kind ⟨0⟩ = .element ∧ e.kind ⟨2⟩ = .element ∧
      (∀ i, d.AtOrAbove i ⟨0⟩ → d.LegibleAt i) ∧ (∀ i, e.AtOrAbove i ⟨2⟩ → e.LegibleAt i) ∧
      d.toXml ⟨0⟩ = "<p:x a=\"1&quot;&lt;\">b&lt;c/&gt;<y/>&amp;lt;</p:x>" ∧
      d.toXml ⟨0⟩ = e.toXml ⟨2⟩ ∧ (d.tree ⟨0⟩).asWritten = (e.tree ⟨2⟩).asWritten := by
  intro content d e
  have legible : ∀ i, d.AtOrAbove i ⟨0⟩ → d.LegibleAt i := fun i below =>
    (by decide +kernel : ∀ i : Fin d.size, d.LegibleAt ⟨i⟩)
      ⟨i.index, has_of_below (by decide +kernel) below⟩
  have legible' : ∀ i, e.AtOrAbove i ⟨2⟩ → e.LegibleAt i := fun i below =>
    (by decide +kernel : ∀ i : Fin e.size, e.LegibleAt ⟨i⟩)
      ⟨i.index, has_of_below (by decide +kernel) below⟩
  have kind : d.kind ⟨0⟩ = .element := by decide +kernel
  have kind' : e.kind ⟨2⟩ = .element := by decide +kernel
  have same : d.toXml ⟨0⟩ = e.toXml ⟨2⟩ := by decide +kernel
  exact ⟨wellFormed_holding _, wellFormed_holding _, kind, kind', legible, legible', by decide +kernel,
    same, (toXml_eq_iff (wellFormed_holding _) (wellFormed_holding _) kind kind' legible legible').1 same⟩

end Document

end VirtualTree
