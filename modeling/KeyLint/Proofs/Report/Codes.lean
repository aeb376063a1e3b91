import KeyLint.Proofs.Text
import KeyLint.Report.Style

/-!
# Terminal codes

Colours only put terminal codes around the runs of a styled text. Whoever takes the codes out of what
is written with colours gets what is written without them, as long as no run has an escape character
of its own.
-/

namespace KeyLint

namespace Styled

/-- A text without its terminal codes: from an escape character up to the next `m`, nothing is kept.
A text may begin inside a code. -/
def withoutCodes : (inCode : Bool) → Text → Text
  | _, [] => []
  | true, c :: cs => withoutCodes (c ≠ 'm') cs
  | false, c :: cs =>
    if c = escapeChar then withoutCodes true cs else c :: withoutCodes false cs

/-! ## Codes of a style -/

theorem withoutCodes_append {t : Text} (h : escapeChar ∉ t) (rest : Text) :
    withoutCodes false (t ++ rest) = t ++ withoutCodes false rest := by
  induction t with
  | nil => rfl
  | cons c t ih =>
      obtain ⟨hc, ht⟩ := List.ne_and_not_mem_of_not_mem_cons h
      rw [List.cons_append, withoutCodes, if_neg (Ne.symm hc), ih ht, List.cons_append]

/-- A code ends at its first `m`. -/
theorem withoutCodes_inside {t : Text} (h : 'm' ∉ t) (rest : Text) :
    withoutCodes true (t ++ 'm' :: rest) = withoutCodes false rest := by
  induction t with
  | nil => rfl
  | cons c t ih =>
      obtain ⟨hc, ht⟩ := List.ne_and_not_mem_of_not_mem_cons h
      rw [List.cons_append, withoutCodes, decide_eq_true (Ne.symm hc), ih ht]

theorem withoutCodes_control {codes : List Text} (h : ∀ code ∈ codes, 'm' ∉ code) (rest : Text) :
    withoutCodes false (control codes ++ rest) = withoutCodes false rest := by
  have hjoin : ∀ c ∈ Text.join ";".toList codes, c ≠ 'm' :=
    Text.forall_mem_join (by simp) fun code hcode c hc => ne_of_mem_of_not_mem hc (h code hcode)
  have hinside : 'm' ∉ '[' :: Text.join ";".toList codes :=
    List.not_mem_cons_of_ne_of_not_mem (by decide) fun hm => hjoin _ hm rfl
  have hcontrol : control codes ++ rest
      = escapeChar :: (('[' :: Text.join ";".toList codes) ++ 'm' :: rest) := by
    simp [control]
  rw [hcontrol, withoutCodes, if_pos rfl, withoutCodes_inside hinside]

theorem not_mem_codes (s : Style) : ∀ code ∈ s.codes, 'm' ∉ code := by
  obtain ⟨isBold, isDimmed, color⟩ := s
  have hcolor : ∀ color : Color, 'm' ∉ color.code := by
    intro color
    cases color <;> simp [Color.code]
  cases isBold <;> cases isDimmed <;> cases color <;> simp [Style.codes, hcolor]

/-! ## Styled texts -/

/-- No run of a styled text has an escape character of its own. -/
def IsClean (runs : Styled) : Prop :=
  ∀ run ∈ runs, escapeChar ∉ run.text

@[simp] theorem isClean_nil : IsClean [] := by
  simp [IsClean]

@[simp] theorem isClean_cons {run : Run} {runs : Styled} :
    IsClean (run :: runs) ↔ escapeChar ∉ run.text ∧ IsClean runs :=
  List.forall_mem_cons

@[simp] theorem isClean_append {runs more : Styled} :
    IsClean (runs ++ more) ↔ IsClean runs ∧ IsClean more :=
  List.forall_mem_append

theorem withoutCodes_renderRun {run : Run} (h : escapeChar ∉ run.text) (rest : Text) :
    withoutCodes false (renderRun true run ++ rest)
      = renderRun false run ++ withoutCodes false rest := by
  have hplain : renderRun false run = run.text := by simp [renderRun]
  rw [hplain, renderRun]
  split
  · have hreset : ∀ code ∈ ["0".toList], 'm' ∉ code := by simp
    rw [List.append_assoc, List.append_assoc, withoutCodes_control (not_mem_codes _),
      withoutCodes_append h, withoutCodes_control hreset]
  · exact withoutCodes_append h rest

theorem withoutCodes_render_append {runs : Styled} (h : IsClean runs) (rest : Text) :
    withoutCodes false (render true runs ++ rest)
      = render false runs ++ withoutCodes false rest := by
  induction runs with
  | nil => rfl
  | cons run runs ih =>
      obtain ⟨hrun, hruns⟩ := isClean_cons.mp h
      simp only [render, List.flatMap_cons, List.append_assoc] at ih ⊢
      rw [withoutCodes_renderRun hrun, ih hruns]

/-- What is written with colours is, without its codes, what is written without colours. -/
theorem withoutCodes_render {runs : Styled} (h : IsClean runs) :
    withoutCodes false (render true runs) = render false runs := by
  have happend := withoutCodes_render_append h []
  rwa [List.append_nil, withoutCodes, List.append_nil] at happend

theorem withoutCodes_renderLines {lines : List Styled} (h : ∀ line ∈ lines, IsClean line) :
    withoutCodes false (renderLines true lines) = renderLines false lines := by
  induction lines with
  | nil => rfl
  | cons line lines ih =>
      obtain ⟨hline, hlines⟩ := List.forall_mem_cons.mp h
      have hend : escapeChar ∉ ['\n'] := by decide
      have hrest := ih hlines
      simp only [renderLines, List.flatMap_cons, List.append_assoc] at hrest ⊢
      rw [withoutCodes_render_append hline, withoutCodes_append hend, hrest]

end Styled

end KeyLint
