import KeyLint.Template.Attribute
import KeyLint.Template.Region

/-!
# Reading a template

A template is read once, from left to right: regions of text and pieces of markup follow each other.
No tree of elements is built; the result is the list of items in document order.
-/

namespace KeyLint.Template

/-! ## Regions -/

/-- The text after a `<` says that the `<` opens markup. -/
def opensMarkup : Text → Bool
  | c :: _ => Text.isAsciiLetter c || c = '/' || c = '!'
  | [] => false

/-- The region at the beginning of a text, and what follows it: nothing, or a `<` that opens markup.
Markup inside an interpolation does not count. -/
def readRegion (offset : Nat) (t : Text) : Except Error (Text × Text) :=
  match t with
  | [] => .ok ([], [])
  | c :: cs =>
    if c = '\x7b' && cs.head? = some '\x7b' then
      match _h : Text.cut? "\x7d\x7d".toList (cs.drop 1) with
      | none => .error (.unterminatedInterpolation offset)
      | some (body, rest) =>
        let interpolation := "\x7b\x7b".toList ++ body ++ "\x7d\x7d".toList
        match readRegion (offset + Text.bytes interpolation) rest with
        | .error e => .error e
        | .ok (region, rest) => .ok (interpolation ++ region, rest)
    else if c = '<' && opensMarkup cs then .ok ([], c :: cs)
    else
      match readRegion (offset + c.utf8Size) cs with
      | .error e => .error e
      | .ok (region, rest) => .ok (c :: region, rest)
termination_by t.length
decreasing_by
  · have := Text.length_le_of_cut?_eq_some _h
    simp only [List.length_cons, List.length_drop] at *
    omega
  · simp

/-! ## Start tags -/

/-- A character of a tag's name. -/
def isTagNameChar (c : Char) : Bool :=
  Text.isAsciiAlnum c || c = '-' || c = '_' || c = ':' || c = '.'

/-- The rest of a start tag: its attributes, whether it closes its element itself, and what follows
the tag. -/
structure TagBody where
  attributes : List Attribute
  selfClosing : Bool
  rest : Text
deriving Repr, DecidableEq, Inhabited

/-- Reads the attributes of a start tag up to its end. `unclosed` is the error for a tag that has
none. -/
def readTagBody (unclosed : Error) (offset : Nat) (t : Text) : Except Error TagBody :=
  match _ht : t with
  | [] => .error unclosed
  | c :: cs =>
    if Text.isAsciiBlank c then readTagBody unclosed (offset + c.utf8Size) cs
    else if c = '>' then .ok ⟨[], false, cs⟩
    else if c = '/' && cs.head? = some '>' then .ok ⟨[], true, cs.drop 1⟩
    else if c = '/' then readTagBody unclosed (offset + c.utf8Size) cs
    else
      match _h : readAttribute offset (c :: cs) with
      | .error e => .error e
      | .ok (attribute?, rest) =>
        match readTagBody unclosed (offset + (Text.bytes (c :: cs) - Text.bytes rest)) rest with
        | .error e => .error e
        | .ok body => .ok { body with attributes := attribute?.toList ++ body.attributes }
termination_by t.length
decreasing_by
  · simp
  · simp
  · exact length_readAttribute_lt (by simp) _h

/-- Elements whose content is not markup. -/
def rawElements : List Text :=
  ["script".toList, "style".toList]

/-- A text begins with a word in small ASCII letters, in any case of ASCII letters. -/
def startsIgnoringCase : (word : Text) → Text → Bool
  | [], _ => true
  | _ :: _, [] => false
  | letter :: word, c :: cs => Text.toSmallAscii c = letter && startsIgnoringCase word cs

/-- What is left of a text from the first occurrence of a word on, in any case of ASCII letters. -/
def skipTo (word : Text) : Text → Text
  | [] => []
  | c :: cs => if startsIgnoringCase word (c :: cs) then c :: cs else skipTo word cs

/-- What follows the content of an element that was opened with a name: a raw element ends only at
its end tag, any other element's content is read on. -/
def afterRawContent (name : Text) (t : Text) : Text :=
  match rawElements.find? fun raw => Text.eqIgnoringAsciiCase raw name with
  | some raw => skipTo ("</".toList ++ raw) t
  | none => t

/-! ## Markup -/

/-- A tag that is not closed is named by at most this many characters in the error. -/
def maxUnclosedName : Nat := 16

/-- Reads the markup after a `<` at an offset: the attributes in it, and what follows. -/
def readMarkup (offset : Nat) (t : Text) : Except Error (List Attribute × Text) :=
  match Text.after? "!--".toList t with
  | some comment =>
    match Text.cut? "-->".toList comment with
    | none => .error (.unterminatedComment offset)
    | some (_, rest) => .ok ([], rest)
  | none =>
    if t.head? = some '!' || t.head? = some '/' then
      match Text.cut? ">".toList t with
      | none => .error (.unterminatedTag (t.take maxUnclosedName) offset)
      | some (_, rest) => .ok ([], rest)
    else
      let name := t.takeWhile isTagNameChar
      match readTagBody (.unterminatedTag name offset) (offset + 1 + Text.bytes name)
          (t.dropWhile isTagNameChar) with
      | .error e => .error e
      | .ok body =>
        .ok (body.attributes,
          if body.selfClosing then body.rest else afterRawContent name body.rest)

/-! ## Reading makes the text shorter -/

theorem length_skipTo_le (word t : Text) : (skipTo word t).length ≤ t.length := by
  induction t with
  | nil => simp [skipTo]
  | cons c cs ih =>
    rw [skipTo]
    split
    · exact Nat.le_refl _
    · simp only [List.length_cons]
      omega

theorem length_afterRawContent_le (name t : Text) :
    (afterRawContent name t).length ≤ t.length := by
  unfold afterRawContent
  split
  · exact length_skipTo_le _ _
  · exact Nat.le_refl _

theorem length_readTagBody_le {unclosed : Error} {offset : Nat} {t : Text} {body : TagBody}
    (h : readTagBody unclosed offset t = .ok body) : body.rest.length ≤ t.length := by
  fun_induction readTagBody unclosed offset t generalizing body with
  | case1 => simp at h
  | case2 offset c cs _ ih =>
    have := ih h
    simp only [List.length_cons]
    omega
  | case3 =>
    simp only [Except.ok.injEq] at h
    subst h
    simp
  | case4 =>
    simp only [Except.ok.injEq] at h
    subst h
    simp only [List.length_cons, List.length_drop]
    omega
  | case5 offset cs _ _ _ ih =>
    have := ih h
    simp only [List.length_cons]
    omega
  | case6 => simp at h
  | case7 => simp at h
  | case8 offset c cs _ _ _ _ _ rest hread inner hinner ih =>
    simp only [Except.ok.injEq] at h
    subst h
    have h1 := ih hinner
    have h2 := length_readAttribute_lt (by simp) hread
    simp only at *
    omega

theorem length_readMarkup_le {offset : Nat} {t rest : Text} {attributes : List Attribute}
    (h : readMarkup offset t = .ok (attributes, rest)) : rest.length ≤ t.length := by
  unfold readMarkup at h
  split at h
  · next comment hafter =>
    have h1 := Text.length_lt_of_after?_eq_some (by decide) hafter
    split at h
    · simp at h
    · next hcut =>
      simp only [Except.ok.injEq, Prod.mk.injEq] at h
      obtain ⟨_, rfl⟩ := h
      have := Text.length_le_of_cut?_eq_some hcut
      omega
  · split at h
    · split at h
      · simp at h
      · next hcut =>
        simp only [Except.ok.injEq, Prod.mk.injEq] at h
        obtain ⟨_, rfl⟩ := h
        have := Text.length_le_of_cut?_eq_some hcut
        omega
    · simp only at h
      split at h
      · simp at h
      · next body hbody =>
        simp only [Except.ok.injEq, Prod.mk.injEq] at h
        obtain ⟨_, rfl⟩ := h
        have h1 := length_readTagBody_le hbody
        have h2 := Text.length_dropWhile_le isTagNameChar t
        have h3 := length_afterRawContent_le (t.takeWhile isTagNameChar) body.rest
        split <;> omega

theorem length_readRegion_le {offset : Nat} {t region rest : Text}
    (h : readRegion offset t = .ok (region, rest)) : rest.length ≤ t.length := by
  fun_induction readRegion offset t generalizing region with
  | case1 =>
    simp only [Except.ok.injEq, Prod.mk.injEq] at h
    obtain ⟨_, rfl⟩ := h
    simp
  | case2 => simp at h
  | case3 => simp at h
  | case4 offset c cs _ _ tail hcut _ _ _ hinner =>
    simp only [Except.ok.injEq, Prod.mk.injEq] at h
    obtain ⟨_, rfl⟩ := h
    rename_i ih
    have h1 := ih hinner
    have h2 := Text.length_le_of_cut?_eq_some hcut
    simp only [List.length_cons, List.length_drop] at *
    omega
  | case5 =>
    simp only [Except.ok.injEq, Prod.mk.injEq] at h
    obtain ⟨_, rfl⟩ := h
    exact Nat.le_refl _
  | case6 => simp at h
  | case7 offset c cs _ _ _ _ hinner ih =>
    simp only [Except.ok.injEq, Prod.mk.injEq] at h
    obtain ⟨_, rfl⟩ := h
    have h1 := ih hinner
    simp only [List.length_cons]
    omega

/-! ## The whole template -/

/-- The items of the rest of a template, which begins at an offset. -/
def itemsFrom (offset : Nat) (t : Text) : Except Error (List Item) :=
  match _hregion : readRegion offset t with
  | .error e => .error e
  | .ok (region, []) => .ok (regionItems offset region)
  | .ok (region, opening :: markup) =>
    let markupOffset := offset + Text.bytes region
    match _hmarkup : readMarkup markupOffset markup with
    | .error e => .error e
    | .ok (attributes, rest) =>
      let restOffset := markupOffset + (Text.bytes (opening :: markup) - Text.bytes rest)
      match itemsFrom restOffset rest with
      | .error e => .error e
      | .ok items =>
        .ok (regionItems offset region ++ attributes.filterMap Attribute.item? ++ items)
termination_by t.length
decreasing_by
  have h1 := length_readRegion_le _hregion
  have h2 := length_readMarkup_le _hmarkup
  simp only [List.length_cons] at h1
  omega

/-- The items of a template. -/
def items (source : Text) : Except Error (List Item) :=
  itemsFrom 0 source

end KeyLint.Template
