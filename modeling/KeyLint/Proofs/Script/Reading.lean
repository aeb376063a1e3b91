import KeyLint.Proofs.Script.Layout
import KeyLint.Proofs.Script.Tokens
import KeyLint.Script.Reading

/-!
# Readings that lay out what they read

A reading starts at the current token and never goes back, and the nodes that it has as its result
stand where it has read them. There is one rule for each way to put readings together, so that a
form of the grammar is followed from its first token to its last.
-/

namespace KeyLint.Script

open Node (Laid)

/-! ## Cursors -/

/-- The current token has been read where it stands. -/
def Cursor.IsSound (c : Cursor) : Prop :=
  Passes c.here (c.token, c.next)

theorem Cursor.isSound_after (fuel : Nat) (place : Place) : (Cursor.after fuel place).IsSound :=
  passes_readToken ..

theorem Cursor.offset_le_after (fuel : Nat) (place : Place) :
    place.offset ≤ (Cursor.after fuel place).here.offset :=
  offset_le_skipBlanks ..

namespace Reading

variable {α β : Type}

/-- Nodes stand between an offset and the current token, which is farther than that offset if
`moved` says so. -/
structure At (lo : Nat) (moved : Bool) (nodes : List Node) (c : Cursor) : Prop where
  isSound : c.IsSound
  laid : Laid lo c.here.offset nodes
  moved : moved = true → lo < c.here.offset

namespace At

variable {lo mid : Nat} {moved moved' : Bool} {nodes nodes' : List Node} {c : Cursor}

theorem le (h : At lo moved nodes c) : lo ≤ c.here.offset :=
  h.laid.le

theorem imp (h : At lo moved nodes c) (hmoved : (moved' && !moved) = false)
    (hlaid : ∀ hi, Laid lo hi nodes → Laid lo hi nodes') : At lo moved' nodes' c where
  isSound := h.isSound
  laid := hlaid _ h.laid
  moved hmoved' := h.moved (by cases moved <;> simp_all)

/-- What is read in an event that begins at the offset is read in the event. -/
theorem event {node : Node} (h : At lo true nodes c) (hstart : node.start? = some lo)
    (hlaid : ∀ hi, Laid lo hi nodes → Laid lo hi node.standing) : At lo true [node] c where
  isSound := h.isSound
  laid := .event hstart (Nat.le_refl lo) (h.moved rfl) (hlaid _ h.laid) (.nil (Nat.le_refl _))
  moved := h.moved

theorem mono (h : At mid moved nodes c) (hle : lo ≤ mid) : At lo moved nodes c where
  isSound := h.isSound
  laid := h.laid.mono_left hle
  moved hmoved := Nat.lt_of_le_of_lt hle (h.moved hmoved)

end At

/-! ## Rules -/

/-- A reading ends in a state of a kind, or has to stop, and then not before an offset. -/
def Ends (lo : Nat) (Q : α → Cursor → Prop) : Except Failure (α × Cursor) → Prop
  | .ok (a, c) => Q a c
  | .error (.unexpected stop) => stop.IsSound ∧ lo ≤ stop.here.offset
  | .error .tooDeep => True

/-- A reading leads from states of one kind to states of another. -/
def Goes (lo : Nat) (P : Cursor → Prop) (r : Reading α) (Q : α → Cursor → Prop) : Prop :=
  ∀ c, P c → Ends lo Q (r c)

/-- A reading lays out nodes from where it begins to where it ends, and takes up some of the text if
`moves` says so. -/
def Reads (moves : Bool) (r : Reading α) (nodes : α → List Node) : Prop :=
  ∀ lo, Goes lo (At lo false []) r fun a => At lo moves (nodes a)

/-- A reading that only looks. -/
def Looks (r : Reading α) : Prop :=
  ∀ c, ∃ a, r c = .ok (a, c)

/-- A reading that only looks and says whether the current token is of some kind, which is never the
end of the script. -/
def Tests (r : Reading Bool) : Prop :=
  ∀ c, ∃ b, r c = .ok (b, c) ∧ (b = true → c.token.isReal = true)

theorem Ends.imp {lo mid : Nat} {Q R : α → Cursor → Prop} {result : Except Failure (α × Cursor)}
    (h : Ends mid Q result) (hle : lo ≤ mid) (himp : ∀ a c, Q a c → R a c) : Ends lo R result := by
  match result, h with
  | .ok (a, c), h => exact himp a c h
  | .error (.unexpected _), ⟨hsound, hstop⟩ => exact ⟨hsound, Nat.le_trans hle hstop⟩
  | .error .tooDeep, _ => trivial

theorem bind_apply (r : Reading α) (f : α → Reading β) (c : Cursor) :
    (r >>= f) c = match r c with
      | .ok (a, c) => f a c
      | .error e => .error e := by
  show Except.bind (r c) (fun x => f x.1 x.2) = _
  cases r c <;> rfl

namespace Goes

variable {lo mid : Nat} {P : Cursor → Prop} {Q : β → Cursor → Prop} {R : α → Cursor → Prop}
  {m m' q : Bool} {before : List Node} {r s : Reading α} {f : α → Reading β}

theorem bind (hr : Goes lo P r R) (hf : ∀ a, Goes lo (R a) (f a) Q) : Goes lo P (r >>= f) Q := by
  intro c hc
  have hends := hr c hc
  rw [bind_apply]
  match hresult : r c, hends with
  | .ok (a, c'), hends => exact hf a c' hends
  | .error (.unexpected _), hends => exact hends
  | .error .tooDeep, _ => trivial

theorem weaken {R' : α → Cursor → Prop} (h : Goes lo P r R) (himp : ∀ a c, R a c → R' a c) :
    Goes lo P r R' :=
  fun c hc => (h c hc).imp (Nat.le_refl lo) himp

theorem pre {P' : Cursor → Prop} (h : Goes lo P r R) (himp : ∀ c, P' c → P c) : Goes lo P' r R :=
  fun c hc => h c (himp c hc)

theorem result {a : α} (h : ∀ c, P c → R a c) : Goes lo P (pure a) R :=
  fun c hc => h c hc

theorem look (hr : Looks r) (hf : ∀ a, Goes lo P (f a) Q) : Goes lo P (r >>= f) Q := by
  intro c hc
  obtain ⟨a, ha⟩ := hr c
  rw [bind_apply, ha]
  exact hf a c hc

/-- After a test, the current token is known to be a real one if the test says yes. -/
theorem test {r : Reading Bool} {f : Bool → Reading β} (hr : Tests r)
    (hf : ∀ b, Goes lo (fun c => P c ∧ (b = true → c.token.isReal = true)) (f b) Q) :
    Goes lo P (r >>= f) Q := by
  intro c hc
  obtain ⟨b, hb, hreal⟩ := hr c
  rw [bind_apply, hb]
  exact hf b c ⟨hc, hreal⟩

theorem ite {p : Prop} [Decidable p] (hr : p → Goes lo P r R) (hs : ¬ p → Goes lo P s R) :
    Goes lo P (if p then r else s) R := by
  split
  · next hp => exact hr hp
  · next hp => exact hs hp

theorem fail : Goes lo (At lo m before) (fail : Reading α) R :=
  fun _ hc => ⟨hc.isSound, hc.le⟩

theorem fail_bind : Goes lo (At lo m before) (Reading.fail >>= f) Q :=
  bind (fail (R := fun _ _ => False)) fun _ _ hc => hc.elim

/-- A way to go on that depends on what is seen. -/
theorem branch {γ : Type} {p : γ → Prop} [∀ a, Decidable (p a)] {sight : Reading γ}
    (hsight : Looks sight) (hr : Goes lo P r R) (hs : Goes lo P s R) :
    Goes lo P (sight >>= fun a => if p a then r else s) R :=
  look hsight fun _ => ite (fun _ => hr) fun _ => hs

/-- Both ways of a branch go on in the same way. -/
theorem either {p : Prop} [Decidable p] (R : α → Cursor → Prop) (hr : p → Goes lo P r R)
    (hs : ¬ p → Goes lo P s R) (hf : ∀ a, Goes lo (R a) (f a) Q) :
    Goes lo P (if p then r >>= f else s >>= f) Q :=
  ite (fun hp => (hr hp).bind hf) fun hp => (hs hp).bind hf

/-- Something is read unless there is no need to. -/
theorem ifNot {p : Prop} [Decidable p] {s : Reading β} (hr : ¬ p → Goes lo P r fun _ => P)
    (hs : Goes lo P s Q) : Goes lo P (if p then s else r >>= fun _ => s) Q :=
  ite (fun _ => hs) fun hp => (hr hp).bind fun _ => hs

/-- Something is read if there is need to. -/
theorem ifSo {p : Prop} [Decidable p] {s : Reading β} (hr : p → Goes lo P r fun _ => P)
    (hs : Goes lo P s Q) : Goes lo P (if p then r >>= fun _ => s else s) Q :=
  ite (fun hp => (hr hp).bind fun _ => hs) fun _ => hs

end Goes

/-! ### Readings in a sequence -/

section

variable {lo : Nat} {m m' q : Bool} {before : List Node} {r : Reading α} {f : α → Reading β}
  {nodes : α → List Node} {Q : β → Cursor → Prop}

/-- What stands before the place where a reading begins stays where it is. -/
theorem Reads.frame (h : Reads q r nodes) (lo : Nat) (m : Bool) (before : List Node) :
    Goes lo (At lo m before) r fun a => At lo (q || m) (before ++ nodes a) := by
  intro c hc
  have hhere : At c.here.offset false [] c := ⟨hc.isSound, .nil (Nat.le_refl _), nofun⟩
  refine (h c.here.offset c hhere).imp hc.le fun a c' hc' => ?_
  refine ⟨hc'.isSound, hc.laid.append hc'.laid, fun hmoved => ?_⟩
  have hle := hc.le
  have hle' := hc'.le
  rcases Bool.or_eq_true_iff.mp hmoved with hq | hm
  · have := hc'.moved hq
    omega
  · have := hc.moved hm
    omega

/-- Nodes that nothing is made of may be forgotten. -/
theorem Reads.forget (h : Reads q r nodes) : Reads q r fun _ => [] :=
  fun lo => (h lo).weaken fun _ _ hc => ⟨hc.isSound, .nil hc.le, hc.moved⟩

/-- A reading whose result does not count. -/
theorem Reads.stay (h : Reads q r nodes) : Goes lo (At lo m before) r fun _ => At lo m before :=
  (h.frame lo m before).weaken fun _ _ hc => by
    refine ⟨hc.isSound, ?_, fun hm => hc.moved (by simp [hm])⟩
    obtain ⟨mid, hbefore, hnodes⟩ := Node.laid_append_iff.mp hc.laid
    exact hbefore.mono_right hnodes.le

theorem Goes.keep (hr : Reads q r nodes)
    (hf : ∀ a, Goes lo (At lo (q || m) (before ++ nodes a)) (f a) Q) :
    Goes lo (At lo m before) (r >>= f) Q :=
  (hr.frame lo m before).bind hf

theorem Goes.skip (hr : Reads q r nodes) (hf : ∀ a, Goes lo (At lo (q || m) before) (f a) Q) :
    Goes lo (At lo m before) (r >>= f) Q := by
  refine (hr.forget.frame lo m before).bind fun a => ?_
  rw [List.append_nil]
  exact hf a

/-- A way to go on that depends on what is read. -/
theorem Goes.fork {p : α → Prop} [∀ a, Decidable (p a)] {yes no : Reading β} (hr : Reads q r nodes)
    (hyes : Goes lo (At lo (q || m) before) yes Q) (hno : Goes lo (At lo (q || m) before) no Q) :
    Goes lo (At lo m before) (r >>= fun a => if p a then yes else no) Q :=
  .skip hr fun _ => .ite (fun _ => hyes) fun _ => hno

/-- The last reading of a sequence. -/
theorem Goes.last {result : α → List Node} (hr : Reads q r nodes)
    (hmoved : (m' && !(q || m)) = false)
    (hlaid : ∀ a hi, Laid lo hi (before ++ nodes a) → Laid lo hi (result a)) :
    Goes lo (At lo m before) r fun a => At lo m' (result a) :=
  (hr.frame lo m before).weaken fun a _ hc => hc.imp hmoved (hlaid a)

/-- The end of a sequence. -/
theorem Goes.done {a : α} {result : α → List Node} (hmoved : (m' && !m) = false)
    (hlaid : ∀ hi, Laid lo hi before → Laid lo hi (result a)) :
    Goes lo (At lo m before) (pure a) fun a => At lo m' (result a) :=
  .result fun _ hc => hc.imp hmoved hlaid

/-- The rest of a sequence that needs to know less. -/
theorem Goes.after {before' : List Node} {R : α → Cursor → Prop} (h : Goes lo (At lo m' before') r R)
    (hmoved : (m' && !m) = false) (hlaid : ∀ hi, Laid lo hi before → Laid lo hi before') :
    Goes lo (At lo m before) r R :=
  h.pre fun _ hc => hc.imp hmoved hlaid

/-- The rest of a sequence that makes nothing of what has been read. -/
theorem Goes.forget {R : α → Cursor → Prop} (h : Goes lo (At lo false []) r R) :
    Goes lo (At lo m before) r R :=
  h.after rfl fun _ hlaid => .nil hlaid.le

/-- A part of a form that may be missing. -/
theorem Goes.optionally {p : Prop} [Decidable p] {part : Reading Node} {f : List Node → Reading β}
    (hpart : Reads q part fun node => [node])
    (hf : ∀ nodes, Goes lo (At lo m (before ++ nodes)) (f nodes) Q) :
    Goes lo (At lo m before) (if p then part >>= fun node => pure [node] >>= f else pure [] >>= f) Q :=
  .ite (fun _ => .keep hpart fun node => (hf [node]).after (by cases m <;> simp) fun _ => id)
    fun _ => (hf []).after (by simp) (by simp)

/-- A sequence that remembers where it begins. -/
theorem Reads.offset {f : Nat → Reading α}
    (h : ∀ start, Goes start (At start false []) (f start) fun a => At start q (nodes a)) :
    Reads q (Reading.offset >>= f) nodes := by
  intro lo c hc
  have hhere : At c.here.offset false [] c := ⟨hc.isSound, .nil (Nat.le_refl _), nofun⟩
  exact (h c.here.offset c hhere).imp hc.le fun a c' hc' => hc'.mono hc.le

theorem Goes.spanFrom {P : Cursor → Prop} {start : Nat} {f : Span → Reading β}
    (h : ∀ stop, Goes lo P (f ⟨start, stop⟩) Q) : Goes lo P (Reading.spanFrom start >>= f) Q :=
  fun c hc => h c.lastEnd c hc

theorem Goes.token {P : Cursor → Prop} {f : Token → Reading β}
    (h : ∀ token, Goes lo (fun c => P c ∧ c.token = token) (f token) Q) :
    Goes lo P (Reading.token >>= f) Q :=
  fun c hc => h c.token c ⟨hc, rfl⟩

/-- A sequence that remembers its state. -/
theorem Goes.remember {P : Cursor → Prop} {f : Cursor → Reading β}
    (h : ∀ c, P c → Goes lo P (f c) Q) : Goes lo P (MonadState.get >>= f) Q :=
  fun c hc => h c hc c hc

theorem Goes.attempt {P : Cursor → Prop} {R : α → Cursor → Prop} (h : Goes lo P r R) :
    Goes lo P (Reading.attempt r) fun a? c => a?.elim (P c) (R · c) := by
  intro c hc
  have hends := h c hc
  unfold Reading.attempt
  match r c, hends with
  | .ok (a, c'), hends => exact hends
  | .error _, _ => exact hc

/-- A place that is not before the current token, and after it if `q` says so. -/
theorem At.after {place : Place} {c : Cursor} (h : At lo m before c)
    (q : Bool) (hle : c.here.offset ≤ place.offset) (hlt : q = true → c.here.offset < place.offset)
    (fuel : Nat) : At lo (q || m) before (Cursor.after fuel place) := by
  have hle' := Cursor.offset_le_after fuel place
  have hlo := h.le
  refine ⟨Cursor.isSound_after .., h.laid.mono_right (Nat.le_trans hle hle'), fun hmoved => ?_⟩
  rcases Bool.or_eq_true_iff.mp hmoved with hq | hm
  · have := hlt hq
    omega
  · have := h.moved hm
    omega

end

/-! ### Trying and repeating -/

section

variable {q : Bool} {r : Reading α} {nodes : α → List Node}

theorem Goes.map {lo : Nat} {P : Cursor → Prop} {f : α → β} {R : β → Cursor → Prop}
    (h : Goes lo P r fun a => R (f a)) : Goes lo P (f <$> r) R :=
  h.bind fun _ => .result fun _ => id

theorem Reads.map {f : α → β} {result : β → List Node} (h : Reads q r fun a => result (f a)) :
    Reads q (f <$> r) result :=
  fun lo => .map (h lo)

theorem Reads.attempt (h : Reads q r nodes) :
    Reads false (Reading.attempt r) fun a? => a?.elim [] nodes := by
  intro lo c hc
  have hends := h lo c hc
  unfold Reading.attempt
  match r c, hends with
  | .ok (a, c'), hends => exact At.imp hends rfl fun _ => id
  | .error _, _ => exact hc

theorem Reads.recover (h : Reads q r nodes) :
    Reads false (Reading.recover r) fun a? => a?.elim [] nodes := by
  intro lo c hc
  have hends := h lo c hc
  unfold Reading.recover
  match r c, hends with
  | .ok (a, c'), hends => exact At.imp hends rfl fun _ => id
  | .error (.unexpected _), ⟨hsound, hle⟩ => exact ⟨hsound, .nil hle, nofun⟩
  | .error .tooDeep, _ => trivial

theorem Reads.optional (h : Reads q r nodes) :
    Reads false (Reading.optional r) fun a? => a?.elim [] nodes := by
  intro lo c hc
  have hends := h lo c hc
  unfold Reading.optional
  match r c, hends with
  | .ok (a, c'), hends => exact At.imp hends rfl fun _ => id
  | .error (.unexpected stop), hends =>
      dsimp only
      split
      · exact hc
      · exact hends
  | .error .tooDeep, _ => trivial

theorem looks_ahead (r : Reading α) : Looks (Reading.ahead r) := by
  intro c
  unfold Reading.ahead
  split
  · exact ⟨true, rfl⟩
  · exact ⟨false, rfl⟩

theorem looks_get : Looks (MonadState.get : Reading Cursor) := fun c => ⟨c, rfl⟩

theorem Reads.repeatUpTo {r : Reading (Option α)} (h : Reads q r fun a? => a?.elim [] nodes)
    (fuel : Nat) : Reads false (Reading.repeatUpTo r fuel) (List.flatMap nodes) := by
  induction fuel with
  | zero => exact fun lo => .result fun _ => id
  | succ fuel ih =>
      intro lo
      unfold Reading.repeatUpTo
      refine .keep h fun a? => ?_
      cases a? with
      | none => exact .done rfl fun _ => id
      | some a => exact .keep ih fun as => .done rfl (by simp)

/-- What is read again and again stands in a row. -/
theorem Reads.many {r : Reading (Option α)} (h : Reads q r fun a? => a?.elim [] nodes) :
    Reads false (Reading.many r) (List.flatMap nodes) :=
  fun lo => .look looks_get fun c => h.repeatUpTo c.fuel lo

end

/-! ## Looking at the current token -/

theorem looks_pure (a : α) : Looks (pure a) := fun _ => ⟨a, rfl⟩

theorem Looks.bind {r : Reading α} {f : α → Reading β} (hr : Looks r) (hf : ∀ a, Looks (f a)) :
    Looks (r >>= f) := by
  intro c
  obtain ⟨a, ha⟩ := hr c
  rw [bind_apply, ha]
  exact hf a c

theorem Looks.bind_pure {r : Reading α} (h : Looks r) (f : α → β) :
    Looks (r >>= fun a => pure (f a)) :=
  h.bind fun a => looks_pure (f a)

theorem Looks.ite {p : Prop} [Decidable p] {r s : Reading α} (hr : Looks r) (hs : Looks s) :
    Looks (if p then r else s) := by
  split
  · exact hr
  · exact hs

theorem looks_token : Looks Reading.token := fun c => ⟨c.token, rfl⟩

theorem looks_onNewLine : Looks Reading.onNewLine := fun c => ⟨c.newline, rfl⟩

theorem looks_following : Looks Reading.following := fun c => ⟨Cursor.after c.fuel c.next, rfl⟩

theorem looks_followedOnLine (p : Token → Bool) : Looks (Reading.followedOnLine p) :=
  looks_following.bind_pure fun c => !c.newline && p c.token

theorem looks_isIdentifier : Looks Reading.isIdentifier :=
  looks_token.bind_pure Reading.isThingName

theorem token_bind_apply (f : Token → Reading β) (c : Cursor) :
    (Reading.token >>= f) c = f c.token c := rfl

theorem Tests.looks {r : Reading Bool} (h : Tests r) : Looks r := fun c =>
  let ⟨b, hb, _⟩ := h c
  ⟨b, hb⟩

theorem tests_isSign (sign : String) : Tests (Reading.isSign sign) := by
  refine fun c => ⟨decide (c.token = .sign sign), rfl, fun h => ?_⟩
  rw [of_decide_eq_true h]
  rfl

theorem tests_isWord (word : String) : Tests (Reading.isWord word) := by
  refine fun c => ⟨decide (c.token = .name word.toList true), rfl, fun h => ?_⟩
  rw [of_decide_eq_true h]
  rfl

theorem tests_isAnySign (signs : List String) : Tests (Reading.isAnySign signs) := by
  intro c
  unfold Reading.isAnySign
  rw [token_bind_apply]
  cases c.token with
  | sign => exact ⟨_, rfl, fun _ => rfl⟩
  | _ => exact ⟨false, rfl, nofun⟩

theorem tests_isAnyWord (words : List String) : Tests (Reading.isAnyWord words) := by
  intro c
  unfold Reading.isAnyWord
  rw [token_bind_apply]
  cases c.token with
  | name text plain =>
      cases plain with
      | true => exact ⟨_, rfl, fun _ => rfl⟩
      | false => exact ⟨false, rfl, nofun⟩
  | _ => exact ⟨false, rfl, nofun⟩

theorem looks_isSign (sign : String) : Looks (Reading.isSign sign) := (tests_isSign sign).looks

theorem looks_isWord (word : String) : Looks (Reading.isWord word) := (tests_isWord word).looks

theorem looks_isAnySign (signs : List String) : Looks (Reading.isAnySign signs) :=
  (tests_isAnySign signs).looks

theorem looks_isAnyWord (words : List String) : Looks (Reading.isAnyWord words) :=
  (tests_isAnyWord words).looks

/-! ## Moving on -/

section

variable {lo : Nat} {m q : Bool} {before : List Node} {Q : β → Cursor → Prop}

theorem get_bind_apply (f : Cursor → Reading β) (c : Cursor) :
    (MonadState.get >>= f) c = f c c := rfl

theorem advance_apply (c : Cursor) :
    Reading.advance c = if c.token = .bad then .error (.unexpected c)
      else .ok ((), Cursor.after c.fuel c.next) := by
  unfold Reading.advance
  rw [get_bind_apply]
  cases c.token <;> rfl

/-- Moving past a real token takes up its text. -/
theorem goes_advance :
    Goes lo (fun c => At lo m before c ∧ c.token.isReal = true) Reading.advance
      fun _ => At lo true before := by
  rintro c ⟨hc, hreal⟩
  rw [advance_apply]
  split
  · exact ⟨hc.isSound, hc.le⟩
  · exact hc.after true hc.isSound.1 (fun _ => hc.isSound.2 hreal) c.fuel

theorem reads_advance : Reads false Reading.advance fun _ => [] := by
  intro lo c hc
  rw [advance_apply]
  split
  · exact ⟨hc.isSound, hc.le⟩
  · exact hc.after false hc.isSound.1 nofun c.fuel

theorem goes_eat_of_tests {r : Reading Bool} (hr : Tests r) :
    Goes lo (At lo m before) (r >>= fun b => if b = true then do
      Reading.advance
      pure true
    else pure false) fun b => At lo (b || m) before := by
  refine .test hr fun b => .ite (fun hb => ?_) fun _ => .result fun _ => And.left
  exact .pre (goes_advance.bind fun _ => .result fun _ => id) fun c hc => ⟨hc.1, hc.2 hb⟩

theorem goes_eat (sign : String) :
    Goes lo (At lo m before) (Reading.eat sign) fun b => At lo (b || m) before :=
  goes_eat_of_tests (tests_isSign sign)

theorem goes_eatWord (word : String) :
    Goes lo (At lo m before) (Reading.eatWord word) fun b => At lo (b || m) before :=
  goes_eat_of_tests (tests_isWord word)

/-- A sign that decides how to go on. -/
theorem Goes.eat {sign : String} {yes no : Reading β} (hyes : Goes lo (At lo true before) yes Q)
    (hno : Goes lo (At lo m before) no Q) :
    Goes lo (At lo m before) (Reading.eat sign >>= fun b => if b = true then yes else no) Q := by
  refine (goes_eat sign).bind fun b => ?_
  cases b with
  | true => exact hyes
  | false => exact hno

theorem reads_eat (sign : String) : Reads false (Reading.eat sign) fun _ => [] :=
  fun _ => (goes_eat sign).weaken fun _ _ hc => hc.imp rfl fun _ => id

theorem reads_eatWord (word : String) : Reads false (Reading.eatWord word) fun _ => [] :=
  fun _ => (goes_eatWord word).weaken fun _ _ hc => hc.imp rfl fun _ => id

theorem reads_expect (sign : String) : Reads true (Reading.expect sign) fun _ => [] := by
  refine fun lo => (goes_eat sign).bind fun b => ?_
  cases b with
  | true => exact .result fun _ => id
  | false => exact .fail

theorem reads_expectWord (word : String) : Reads true (Reading.expectWord word) fun _ => [] := by
  refine fun lo => (goes_eatWord word).bind fun b => ?_
  cases b with
  | true => exact .result fun _ => id
  | false => exact .fail

theorem reads_expectChar (char : Char) : Reads true (Reading.expectChar char) fun _ => [] := by
  intro lo c hc
  show Ends lo _ ((if c.here.rest.head? = some char then Reading.moveTo (c.here.drop 1)
    else Reading.fail) c)
  split
  · next hhead =>
      have hne : c.here.rest ≠ [] := fun hnil => by simp [hnil] at hhead
      exact hc.after true (c.here.offset_le_drop 1) (fun _ => Place.offset_lt_drop hne 0) c.fuel
  · exact ⟨hc.isSound, hc.le⟩

theorem reads_eatSemicolon : Reads false Reading.eatSemicolon fun _ => [] := by
  intro lo
  unfold Reading.eatSemicolon
  refine .skip (reads_eat ";") fun b => .ite (fun _ => .done rfl fun _ => id) fun _ => ?_
  refine .look (looks_isSign _) fun _ => .look looks_token fun _ => ?_
  exact .look looks_onNewLine fun _ => .done rfl fun _ => id

theorem reads_semicolon : Reads false Reading.semicolon fun _ => [] := by
  intro lo
  unfold Reading.semicolon
  exact .fork reads_eatSemicolon (.done rfl fun _ => id) .fail

theorem reads_skipStatement : Reads false Reading.skipStatement fun _ => [] := by
  have htoken : Reads false (do
      if (← Reading.eatSemicolon) || (← Reading.token) = .bad then return none
      Reading.advance
      return some ()) (fun a? => a?.elim [] fun _ => []) := by
    intro lo
    refine .skip reads_eatSemicolon fun _ => ?_
    refine .branch looks_token (.done rfl fun _ => id) ?_
    exact .skip reads_advance fun _ => .done rfl fun _ => id
  exact fun lo => .skip htoken.many fun _ => .done rfl fun _ => id

theorem reads_anyName : Reads true Reading.anyName fun _ => [] := by
  intro lo
  refine .token fun token => ?_
  split
  · refine .pre (goes_advance.bind fun _ => .result fun _ => id) fun c hc => ⟨hc.1, ?_⟩
    rw [hc.2]
    rfl
  · exact .pre .fail fun _ => And.left

theorem reads_identifier : Reads true Reading.identifier fun _ => [] := by
  intro lo
  exact .branch looks_token (reads_anyName lo) .fail

theorem reads_mention : Reads true Reading.mention fun _ => [] := by
  intro lo
  exact .branch looks_token (reads_anyName lo) .fail

end

/-- Moving to a place that is not before the current token. -/
theorem goes_moveTo {lo : Nat} {m : Bool} {before : List Node} {place next : Place}
    (hle : place.offset ≤ next.offset) :
    Goes lo (fun c => At lo m before c ∧ c.here.offset ≤ place.offset) (Reading.moveTo next)
      fun _ => At lo m before :=
  fun c hc => hc.1.after false (Nat.le_trans hc.2 hle) nofun c.fuel

/-- A sequence that goes on at a place which is not before the current token. -/
theorem Goes.fromPlace {lo : Nat} {m : Bool} {before : List Node} {f : Cursor → Reading β}
    {Q : β → Cursor → Prop} (place : Cursor → Place)
    (hplace : ∀ c, c.IsSound → c.here.offset ≤ (place c).offset)
    (h : ∀ c, Goes lo (fun c' => At lo m before c' ∧ c'.here.offset ≤ (place c).offset) (f c) Q) :
    Goes lo (At lo m before) (MonadState.get >>= f) Q :=
  fun c hc => h c c ⟨hc, hplace c hc.isSound⟩

/-- Items with commas between them stand in a row. -/
theorem Reads.commaList {q : Bool} {item : Reading α} {nodes : α → List Node}
    (h : Reads q item nodes) (closing : String) :
    Reads true (Reading.commaList closing item) (List.flatMap nodes) := by
  have hitem : Reads false (do
      if ← Reading.isSign closing then return none
      let a ← item
      unless ← Reading.isSign closing do Reading.expect ","
      return some a) (fun a? => a?.elim [] nodes) := by
    intro lo
    refine .branch (looks_isSign closing) (.done rfl fun _ => id) ?_
    refine .keep h fun a => .look (looks_isSign closing) fun _ => ?_
    exact .ifNot (fun _ => (reads_expect ",").stay) (.done rfl fun _ => id)
  intro lo
  refine .keep hitem.many fun items => .skip (reads_expect closing) fun _ => ?_
  exact .done rfl fun _ => id

end Reading

end KeyLint.Script
