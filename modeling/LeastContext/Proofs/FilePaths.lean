import LeastContext.Batch
import Mathlib.Data.List.TakeDrop
import Mathlib.Data.Prod.Lex
import Mathlib.Data.String.Basic

namespace LeastContext

namespace Path

namespace Component

variable {a b c : Component}

/-- The order of components as one of numbers and texts. -/
def rank : Component → Nat × String
  | .root => (0, "")
  | .current => (1, "")
  | .parent => (2, "")
  | .name text => (3, text)

theorem notAfter_iff : a.notAfter b = true ↔ toLex a.rank ≤ toLex b.rank := by
  cases a <;> cases b <;> simp [notAfter, rank, Prod.Lex.toLex_le_toLex]

theorem notAfter_total (a b : Component) : a.notAfter b = true ∨ b.notAfter a = true := by
  rw [notAfter_iff, notAfter_iff]
  exact le_total _ _

theorem notAfter_trans (h : a.notAfter b = true) (h' : b.notAfter c = true) :
    a.notAfter c = true :=
  notAfter_iff.mpr (le_trans (notAfter_iff.mp h) (notAfter_iff.mp h'))

end Component

section Order

variable {as bs cs : List Component}

theorem componentsNotAfter_total (as bs : List Component) :
    componentsNotAfter as bs = true ∨ componentsNotAfter bs as = true := by
  induction as generalizing bs with
  | nil => exact .inl rfl
  | cons a as ih =>
    cases bs with
    | nil => exact .inr rfl
    | cons b bs =>
      simp only [componentsNotAfter, eq_comm (a := b)]
      by_cases he : a = b
      · simpa [he] using ih bs
      · simpa [he] using a.notAfter_total b

theorem same_iff {a b : Path} : a.same b = true ↔ a.components = b.components :=
  decide_eq_true_iff

theorem notAfter_of_same {a b : Path} (h : a.same b = true) : a.notAfter b = true := by
  rw [notAfter, same_iff.mp h]
  exact (componentsNotAfter_total _ _).elim id id

end Order

section Segments

/-- Whether a segment leads anywhere: an empty one and a dot do not. -/
def isStep (segment : String) : Bool :=
  segment ≠ "" ∧ segment ≠ "."

/-- A path whose last segment leads somewhere. -/
def EndsInStep (path : Path) : Prop :=
  ∃ last, path.segments.getLast? = some last ∧ isStep last = true

/-- How a component is written as a segment. -/
def Component.written : Component → String
  | .root => ""
  | .current => "."
  | .parent => ".."
  | .name text => text

theorem steps_eq (segments : List String) : segments.filter isStep =
    (segments.filterMap Component.ofSegment?).map Component.written := by
  induction segments with
  | nil => rfl
  | cons segment segments ih =>
    by_cases hstep : segment = "" ∨ segment = "."
    · have hno : isStep segment = false := by
        rcases hstep with rfl | rfl <;> rfl
      simp [hno, Component.ofSegment?, hstep, ih]
    · have hyes : isStep segment = true := by
        simpa [isStep] using hstep
      by_cases hparent : segment = ".."
      · subst hparent
        simp [hyes, Component.ofSegment?, Component.written, ih]
      · simp [hyes, Component.ofSegment?, hstep, hparent, Component.written, ih]

theorem ofSegment?_cases {segment : String} {component : Component}
    (h : Component.ofSegment? segment = some component) :
    component ≠ .root ∧ component ≠ .current := by
  unfold Component.ofSegment? at h
  split at h
  · cases h
  · split at h <;> cases h <;> simp

/-- The components of a path are its steps, after one for how it starts. -/
theorem components_cases (path : Path) :
    path.isAbsolute = true ∧
        path.components = .root :: path.segments.filterMap Component.ofSegment? ∨
      path.isAbsolute = false ∧
        (path.components = .current :: path.segments.filterMap Component.ofSegment? ∨
          path.components = path.segments.filterMap Component.ofSegment?) := by
  unfold components
  cases path.isAbsolute with
  | true => simp
  | false =>
    by_cases hdot : path.segments.head? = some "."
    · simp [hdot]
    · simp [hdot]

/-- Paths with the same components start at the same place and have the same steps. -/
theorem steps_of_same {a b : Path} (h : a.same b = true) :
    a.isAbsolute = b.isAbsolute ∧ a.segments.filter isStep = b.segments.filter isStep := by
  rw [steps_eq, steps_eq]
  have inner : ∀ {path : Path} {component},
      component ∈ path.segments.filterMap Component.ofSegment? →
        component ≠ .root ∧ component ≠ .current := by
    intro path component hmem
    obtain ⟨segment, _, hsome⟩ := List.mem_filterMap.mp hmem
    exact ofSegment?_cases hsome
  have heq := same_iff.mp h
  rcases components_cases a with ⟨ha, hca⟩ | ⟨ha, hca | hca⟩
  all_goals
    rcases components_cases b with ⟨hb, hcb⟩ | ⟨hb, hcb | hcb⟩
    all_goals
      rw [hca, hcb] at heq
      grind

theorem splitSlashes_ne_nil (cs : List Char) : splitSlashes cs ≠ [] := by
  cases cs with
  | nil => simp [splitSlashes]
  | cons c cs =>
    rw [splitSlashes]
    split
    · simp
    · split <;> simp

/-- A text that does not end in a slash ends as its last segment does. -/
theorem splitSlashes_getLast {cs : List Char} {c : Char} (h : cs.getLast? = some c)
    (hc : c ≠ '/') : ∃ last, (splitSlashes cs).getLast? = some last ∧ last.getLast? = some c := by
  induction cs with
  | nil => cases h
  | cons d cs ih =>
    cases cs with
    | nil =>
      obtain rfl : d = c := by simpa using h
      exact ⟨[d], by simp [splitSlashes, hc], rfl⟩
    | cons e cs =>
      obtain ⟨last, hlast, hend⟩ := ih (by simpa using h)
      rw [splitSlashes]
      split
      · exact ⟨last, by simp [List.getLast?_cons, hlast], hend⟩
      · split
        · rename_i hnil
          exact absurd hnil (splitSlashes_ne_nil _)
        · rename_i segment segments hcons
          rw [hcons] at hlast
          cases segments with
          | nil =>
            obtain rfl : segment = last := by simpa using hlast
            exact ⟨d :: segment, rfl, by simp [List.getLast?_cons, hend]⟩
          | cons next segments => exact ⟨last, by simpa using hlast, hend⟩

theorem endsInStep_of_getLast {path : Path} {c : Char} (h : path.text.toList.getLast? = some c)
    (hslash : c ≠ '/') (hdot : c ≠ '.') : path.EndsInStep := by
  obtain ⟨last, hlast, hend⟩ := splitSlashes_getLast h hslash
  refine ⟨String.ofList last, by simp [segments, hlast], ?_⟩
  have hne : last ≠ [] ∧ last ≠ ['.'] := by
    constructor
    · rintro rfl
      cases hend
    · rintro rfl
      exact hdot (Option.some.inj hend).symm
  simpa [isStep, String.ext_iff] using hne

theorem EndsInStep.not_empty {path : Path} (h : path.EndsInStep) : path.text.isEmpty = false := by
  obtain ⟨last, hlast, hstep⟩ := h
  by_contra hempty
  have htext : path.text = "" := String.isEmpty_iff.mp (by simpa using hempty)
  simp only [segments, htext, String.toList_empty, splitSlashes] at hlast
  obtain rfl := Option.some.inj hlast
  cases hstep

end Segments

end Path

theorem bind_eq_ok {ε α β : Type} {x : Except ε α} {f : α → Except ε β} {b : β} :
    (x >>= f) = .ok b ↔ ∃ a, x = .ok a ∧ f a = .ok b := by
  cases x <;> simp [bind, Except.bind]

namespace FileTree

open LeastContext.Path

variable {tree : FileTree} {place found : List String} {segments : List String}

theorem follow_notFolder (h : tree.entry? place ≠ some .folder) (more : segments ≠ []) :
    tree.follow place segments = .error .notFolder := by
  cases segments with
  | nil => exact absurd rfl more
  | cons segment segments => rw [follow, if_pos h]

/-- Segments that lead nowhere may be left out, unless they come last. -/
theorem follow_steps {last : String} (h : segments.getLast? = some last)
    (step : isStep last = true) (place : List String) :
    tree.follow place segments = tree.follow place (segments.filter isStep) := by
  induction segments generalizing place with
  | nil => cases h
  | cons segment segments ih =>
    by_cases hmore : segments = []
    · subst hmore
      obtain rfl : segment = last := by simpa using h
      simp [step]
    · have hlast : segments.getLast? = some last := by
        obtain ⟨next, rest, rfl⟩ := List.exists_cons_of_ne_nil hmore
        simpa using h
      by_cases hstep : isStep segment = true
      · rw [List.filter_cons_of_pos hstep, follow, follow]
        simp only [ih hlast]
      · have hstays : segment = "" ∨ segment = "." := by
          simpa [isStep, or_iff_not_imp_left] using hstep
        rw [List.filter_cons_of_neg hstep, ← ih hlast, follow]
        by_cases hfolder : tree.entry? place = some .folder
        · simp [hfolder, hstays]
        · rw [if_pos hfolder, follow_notFolder hfolder hmore]

/-- Paths with the same components that file systems take lead to the same entry. -/
theorem locate_congr (tree : FileTree) {a b : Path} (same : a.same b = true)
    (ha : a.EndsInStep) (hb : b.EndsInStep) (long : isTooLong a = isTooLong b) :
    tree.locate a = tree.locate b := by
  obtain ⟨hstart, hsteps⟩ := steps_of_same same
  have hemptyA := ha.not_empty
  have hemptyB := hb.not_empty
  obtain ⟨lastA, hlastA, stepA⟩ := ha
  obtain ⟨lastB, hlastB, stepB⟩ := hb
  unfold locate
  rw [follow_steps hlastA stepA, follow_steps hlastB stepB, hstart, hsteps, long, hemptyA, hemptyB]

end FileTree

end LeastContext
