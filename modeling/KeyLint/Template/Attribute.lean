import KeyLint.Template.Entity
import KeyLint.Template.Item

/-!
# Attributes of a start tag

An attribute is a name, alone or with a value after an equals sign. Its name tells how it is bound;
event bindings, references, variables and animation triggers are of no interest and give no item.
-/

namespace KeyLint.Template

/-! ## What an attribute is -/

/-- The beginnings of the names of attributes that give no item. -/
def skippedStarts : List Text :=
  ["(".toList, "on-".toList, "#".toList, "ref-".toList, "let-".toList, "@".toList,
   "bindon-".toList]

/-- The name in a binding, without what says that an attribute of the element is bound. -/
def boundName (name : Text) : Text :=
  (Text.after? "attr.".toList name).getD name

/-- What stands in a name between a beginning and an ending. -/
def between? (opening closing name : Text) : Option Text :=
  (Text.after? opening name).bind (Text.before? closing)

/-- The name that a binding's brackets or `bind-` enclose. -/
def bindingName? (name : Text) : Option Text :=
  between? "[(".toList ")]".toList name
    <|> between? "[".toList "]".toList name
    <|> Text.after? "bind-".toList name

/-- The item that an attribute gives, if any. -/
def classify? (name value : Text) (span : Span) : Option Item :=
  match bindingName? name with
  | some inner => some (.boundAttribute (boundName inner) value span)
  | none =>
    if skippedStarts.any fun start => start.isPrefixOf name then none
    else
      match name with
      | '*' :: inner => some (.textAttribute inner value true span)
      | name =>
        if Text.occursIn "\x7b\x7b".toList value then
          some (.boundAttribute (boundName name) value span)
        else some (.textAttribute name (decodeEntities value) false span)

/-! ## How an attribute is read -/

/-- A character that ends an attribute's name wherever it stands. -/
def endsName (c : Char) : Bool :=
  c = '=' || c = '>' || c = '"' || c = '\'' || Text.isAsciiBlank c

/-- The name at the beginning of a text, and what follows it. A slash ends it only before `>`. -/
def readName : Text → Text × Text
  | [] => ([], [])
  | c :: cs =>
    if endsName c || (c = '/' && cs.head? = some '>') then ([], c :: cs)
    else
      let (name, rest) := readName cs
      (c :: name, rest)

/-- How an attribute's value is written. -/
structure Value where
  /-- The value itself, without quotes. -/
  text : Text
  /-- The value as it is written. -/
  written : Text
deriving Repr, DecidableEq, Inhabited

/-- The value at the beginning of a text and what follows it; nothing if a quote is not closed. -/
def readValue? : Text → Option (Value × Text)
  | '"' :: cs =>
    (Text.cut? ['"'] cs).map fun (text, rest) => (⟨text, '"' :: text ++ ['"']⟩, rest)
  | '\'' :: cs =>
    (Text.cut? ['\''] cs).map fun (text, rest) => (⟨text, '\'' :: text ++ ['\'']⟩, rest)
  | cs =>
    let text := cs.takeWhile fun c => !Text.isAsciiBlank c && c ≠ '>'
    some (⟨text, text⟩, cs.dropWhile fun c => !Text.isAsciiBlank c && c ≠ '>')

/-- An attribute as it stands in a tag. -/
structure Attribute where
  name : Text
  value : Text
  span : Span
deriving Repr, DecidableEq, Inhabited

/-- The item that an attribute gives, if any. -/
def Attribute.item? (a : Attribute) : Option Item :=
  classify? a.name a.value a.span

/-- What an attribute has after its name: nothing, or an equals sign and a value. The result is the
value, the bytes it takes after the name, and what follows. Fails if a quote is not closed. -/
def readAssignment? (t : Text) : Option (Text × Nat × Text) :=
  match t.dropWhile Text.isAsciiBlank with
  | '=' :: cs =>
    let blanks := Text.bytes (t.takeWhile Text.isAsciiBlank)
    let moreBlanks := Text.bytes (cs.takeWhile Text.isAsciiBlank)
    (readValue? (cs.dropWhile Text.isAsciiBlank)).map fun (value, rest) =>
      (value.text, blanks + 1 + moreBlanks + Text.bytes value.written, rest)
  | _ => some ([], 0, t)

/-- Reads an attribute at an offset. A quote or an equals sign without a name is passed over and
gives none. -/
def readAttribute (offset : Nat) (t : Text) : Except Error (Option Attribute × Text) :=
  match readName t with
  | ([], _) => .ok (none, t.drop 1)
  | (name, rest) =>
    match readAssignment? rest with
    | none => .error (.unterminatedAttribute offset)
    | some (value, width, rest) =>
      .ok (some ⟨name, value, ⟨offset, offset + Text.bytes name + width⟩⟩, rest)

/-! ## Reading makes the text shorter -/

theorem eq_append_readName (t : Text) : t = (readName t).1 ++ (readName t).2 := by
  induction t with
  | nil => rfl
  | cons c cs ih =>
    rw [readName]
    split
    · rfl
    · simpa using ih

theorem length_readValue?_le {t rest : Text} {v : Value} (h : readValue? t = some (v, rest)) :
    rest.length ≤ t.length := by
  unfold readValue? at h
  split at h
  · obtain ⟨⟨b, r⟩, hcut, heq⟩ := Option.map_eq_some_iff.mp h
    simp only [Prod.mk.injEq] at heq
    obtain ⟨_, rfl⟩ := heq
    have := Text.length_le_of_cut?_eq_some hcut
    simp only [List.length_cons, List.length_nil] at *
    omega
  · obtain ⟨⟨b, r⟩, hcut, heq⟩ := Option.map_eq_some_iff.mp h
    simp only [Prod.mk.injEq] at heq
    obtain ⟨_, rfl⟩ := heq
    have := Text.length_le_of_cut?_eq_some hcut
    simp only [List.length_cons, List.length_nil] at *
    omega
  · simp only [Option.some.injEq, Prod.mk.injEq] at h
    obtain ⟨_, rfl⟩ := h
    exact Text.length_dropWhile_le _ _

theorem length_readAssignment?_le {t value rest : Text} {width : Nat}
    (h : readAssignment? t = some (value, width, rest)) : rest.length ≤ t.length := by
  have hle := Text.length_dropWhile_le Text.isAsciiBlank t
  simp only [readAssignment?] at h
  split at h
  · next cs hdrop =>
    obtain ⟨⟨v, r⟩, hvalue, heq⟩ := Option.map_eq_some_iff.mp h
    simp only [Prod.mk.injEq] at heq
    obtain ⟨_, _, rfl⟩ := heq
    have h1 := length_readValue?_le hvalue
    have h2 := Text.length_dropWhile_le Text.isAsciiBlank cs
    rw [hdrop] at hle
    simp only [List.length_cons] at hle
    omega
  · simp only [Option.some.injEq, Prod.mk.injEq] at h
    obtain ⟨_, _, rfl⟩ := h
    exact Nat.le_refl _

theorem length_readAttribute_lt {offset : Nat} {t rest : Text} {a : Option Attribute}
    (hne : t ≠ []) (h : readAttribute offset t = .ok (a, rest)) : rest.length < t.length := by
  have hsplit := congrArg List.length (eq_append_readName t)
  rw [List.length_append] at hsplit
  unfold readAttribute at h
  split at h
  · simp only [Except.ok.injEq, Prod.mk.injEq] at h
    obtain ⟨_, rfl⟩ := h
    have := List.length_pos_iff.mpr hne
    simp only [List.length_drop]
    omega
  · next name tail hname hread =>
    split at h
    · simp at h
    · next hassign =>
      simp only [Except.ok.injEq, Prod.mk.injEq] at h
      obtain ⟨_, rfl⟩ := h
      have hle := length_readAssignment?_le hassign
      rw [hread] at hsplit
      have := List.length_pos_iff.mpr (show name ≠ [] from hname)
      simp only at hsplit
      omega

end KeyLint.Template
