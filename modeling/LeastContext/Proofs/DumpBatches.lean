import LeastContext.Dump.Encode
import LeastContext.Proofs.GatheredDumps
import LeastContext.Proofs.Strict.Analysis

namespace LeastContext

open Strict

namespace FileTree

variable {tree : FileTree} {settings : Settings} {includeTests : Bool}

/-- A dump that is too long a path away cannot be analyzed. -/
theorem analyzeAtM_of_tooLong {path : Path} (h : isTooLong path = true) : ∃ failure,
    tree.analyzeAtM (m := Strict) settings includeTests path = .ok (.error failure) := by
  have hread : ∃ reason, tree.read path = .error reason := by
    unfold read locate
    by_cases hempty : path.text.isEmpty <;>
      simp [hempty, h, bind, Except.bind, throw, throwThe, MonadExceptOf.throw]
  obtain ⟨reason, hread⟩ := hread
  refine ⟨.io path.text reason.message, ?_⟩
  simp [analyzeAtM, load, hread]

/-- No failure of a dump spoils the others. -/
theorem analyzeAtM_recoverable {path : Path} {failure : Failure}
    (h : tree.analyzeAtM (m := Strict) settings includeTests path = .ok (.error failure)) :
    failure.isRecoverable = true := by
  unfold analyzeAtM at h
  cases hload : tree.load path with
  | error failure' =>
    rw [hload] at h
    cases h
    unfold load at hload
    split at hload
    · cases hload
      rfl
    · unfold Program.ofText at hload
      split at hload
      · cases hload
        rfl
      · unfold Program.checked at hload
        split at hload
        · cases hload
          rfl
        · cases hload
  | ok p =>
    rw [hload] at h
    have hplain := (p.analyzeM_follows settings includeTests).eq_of_ok h
    rcases Program.analyze_eq_error.mp hplain.symm with ⟨defect, _, rfl⟩ | ⟨_, breach, _, rfl⟩
    · rfl
    · rfl

end FileTree

namespace CommandLine

/-- The findings about a dump, none if it could not be analyzed. -/
def findingsOf : Path × Except Failure Analysis → List Diagnostic
  | (_, .ok analysis) => analysis.diagnostics
  | (_, .error _) => []

/-- Why a dump could not be analyzed, with its path. -/
def failureOf? : Path × Except Failure Analysis → Option (Path × Failure)
  | (_, .ok _) => none
  | (path, .error failure) => some (path, failure)

/-- What a run puts together is what each dump gives on its own, and the exit code tells whether a
dump failed and whether anything was found. -/
structure Collects (tree : FileTree) (settings : Settings) (includeTests : Bool)
    (results : List (Path × Except Failure Analysis)) (outcome : Outcome) : Prop where
  alone : ∀ result ∈ results,
    tree.analyzeAtM (m := Strict) settings includeTests result.1 = .ok result.2
  diagnostics : outcome.diagnostics = results.flatMap findingsOf
  failures : outcome.failures = results.filterMap failureOf?
  broken : outcome.exitCode = 2 ↔ ∃ result ∈ results, ∃ failure, result.2 = .error failure
  faulty : outcome.exitCode = 1 ↔
    (¬ ∃ result ∈ results, ∃ failure, result.2 = .error failure) ∧ outcome.diagnostics ≠ []
  clean : outcome.exitCode = 0 ↔
    (¬ ∃ result ∈ results, ∃ failure, result.2 = .error failure) ∧ outcome.diagnostics = []

section Outcomes

variable {tree : FileTree} {settings : Settings} {includeTests : Bool}
  {results results' : List (Path × Except Failure Analysis)} {outcome outcome' : Outcome}

theorem foldlM_add
    (recoverable : ∀ result ∈ results, ∀ failure, result.2 = .error failure →
      failure.isRecoverable = true) (outcome : Outcome) :
    results.foldlM (fun outcome result => outcome.add result.1 result.2) outcome =
      .ok ⟨outcome.diagnostics ++ results.flatMap findingsOf,
        outcome.failures ++ results.filterMap failureOf?⟩ := by
  induction results generalizing outcome with
  | nil => simp [pure, Except.pure]
  | cons result results ih =>
    obtain ⟨here, later⟩ := List.forall_mem_cons.mp recoverable
    obtain ⟨path, result⟩ := result
    rw [List.foldlM_cons]
    cases result with
    | ok analysis =>
      refine (ih later _).trans ?_
      simp [findingsOf, failureOf?, List.filterMap_cons]
    | error failure =>
      have hadd : outcome.add path (.error failure) =
          .ok { outcome with failures := outcome.failures ++ [(path, failure)] } :=
        if_pos (here failure rfl)
      rw [hadd]
      refine (ih later _).trans ?_
      simp [findingsOf, failureOf?]

theorem exists_failure_iff : (∃ result ∈ results, ∃ failure, result.2 = .error failure) ↔
    results.filterMap failureOf? ≠ [] := by
  simp only [ne_eq, List.filterMap_eq_nil_iff, not_forall]
  constructor
  · rintro ⟨⟨path, result⟩, hresult, failure, rfl⟩
    exact ⟨_, hresult, by simp [failureOf?]⟩
  · rintro ⟨⟨path, result⟩, hresult, hfailed⟩
    cases result with
    | ok analysis => simp [failureOf?] at hfailed
    | error failure => exact ⟨_, hresult, failure, rfl⟩

/-- Dumps that can be analyzed or not, but come to an end, have an outcome together. -/
theorem collects_ofResults (alone : ∀ result ∈ results,
      tree.analyzeAtM (m := Strict) settings includeTests result.1 = .ok result.2) :
    ∃ outcome, Outcome.ofResults results = .ok outcome ∧
      Collects tree settings includeTests results outcome := by
  have recoverable : ∀ result ∈ results, ∀ failure, result.2 = .error failure →
      failure.isRecoverable = true := by
    intro result hresult failure hfailure
    exact FileTree.analyzeAtM_recoverable (hfailure ▸ alone result hresult)
  refine ⟨_, foldlM_add recoverable _, alone, by simp, by simp, ?_, ?_, ?_⟩
  all_goals
    rw [exists_failure_iff]
    simp only [Outcome.exitCode, List.nil_append]
    by_cases hfailures : results.filterMap failureOf? = []
    · by_cases hdiagnostics : results.flatMap findingsOf = []
      · simp [hfailures, hdiagnostics]
      · simp [hfailures, hdiagnostics]
    · simp [hfailures]

theorem Collects.findings (h : Collects tree settings includeTests results outcome) :
    ((results.map Prod.fst).map fun dump =>
        (tree.analyzeAtM (m := Strict) settings includeTests dump).map Except.toOption) =
      (results.map (·.2.toOption)).map Except.ok := by
  rw [List.map_map, List.map_map]
  refine List.map_congr_left fun result hresult => ?_
  rw [Function.comp, h.alone result hresult]
  rfl

end Outcomes

section Runs

variable {read : PatternReader} {tree : FileTree} {paths paths' found found' dumps : List Path}
  {config : Option (Config × Path)} {options : Options} {outcome : Outcome} {settings : Settings}

end Runs

theorem exists_analysis {run : Strict (Except Failure Analysis)} {findings : List Diagnostic}
    (h : run.map (Except.map Analysis.diagnostics) = .ok (.ok findings)) :
    ∃ analysis, run = .ok (.ok analysis) ∧ analysis.diagnostics = findings := by
  rcases run with fault | failure | analysis
  · cases h
  · cases h
  · cases h
    exact ⟨analysis, rfl, rfl⟩

section Spellings

open LeastContext.Path

theorem splitSlashes_replicate (n : Nat) (cs : List Char) :
    splitSlashes (List.replicate n '/' ++ cs) = List.replicate n [] ++ splitSlashes cs := by
  induction n with
  | zero => rfl
  | succ n ih => simp [List.replicate_succ, splitSlashes, ih]

/-- A path from a folder `a` on, with a slash and some more of them after it. -/
def slashed (more : Nat) (rest : String) : Path :=
  ⟨String.ofList ('a' :: '/' :: List.replicate more '/') ++ rest⟩

theorem slashed_size (more : Nat) (rest : String) :
    (slashed more rest).text.utf8ByteSize = more + 2 + rest.utf8ByteSize := by
  have hslash : (String.singleton '/').utf8ByteSize = 1 := by decide
  have hfolder : (String.singleton 'a').utf8ByteSize = 1 := by decide
  have hslashes : (String.ofList (List.replicate more '/')).utf8ByteSize = more := by
    induction more with
    | zero => rfl
    | succ more ih =>
      rw [List.replicate_succ, String.ofList_cons, String.utf8ByteSize_append, hslash, ih,
        Nat.add_comm]
  simp only [slashed, String.ofList_cons, String.utf8ByteSize_append, hslashes]
  omega

/-- The slashes do not count. -/
theorem slashed_components (more : Nat) (rest : String) : (slashed more rest).components =
    .name "a" :: (⟨rest⟩ : Path).segments.filterMap Component.ofSegment? := by
  have habsolute : (slashed more rest).isAbsolute = false := by
    simp [isAbsolute, slashed]
  have hsegments : (slashed more rest).segments =
      "a" :: (List.replicate more "" ++ (⟨rest⟩ : Path).segments) := by
    simp [segments, slashed, splitSlashes, splitSlashes_replicate]
  have hfolder : Component.ofSegment? "a" = some (.name "a") := by decide
  have hnone : (List.replicate more "").filterMap Component.ofSegment? = [] := by
    simp [Component.ofSegment?]
  simp [components, habsolute, hsegments, List.filterMap_append, hnone, hfolder]

/-- A package with nothing in it. -/
def emptyPackage : Program where
  package := ⟨0⟩
  packages := #[⟨"app", "app"⟩]
  types := #[]
  objects := #[]
  files := []

/-- A folder in a folder, with the dump of a package with nothing in it. -/
def oneDump : FileTree :=
  ⟨["home"], [(["home", "a", "d", "x.json"], .text emptyPackage.toJson.compact)]⟩

theorem oneDump_gather {more : Nat} (short : more + 3 < FileTree.pathLimit) :
    oneDump.gather (slashed more "d") = .ok [slashed more "d/x.json"] := by
  have hsame : (slashed more "d").same ⟨"a/d"⟩ = true := by
    rw [same_iff, slashed_components]
    decide +kernel
  have hlast : (slashed more "d").text.toList.getLast? = some 'd' := by
    simp [slashed, List.getLast?_cons]
  have hlong : FileTree.isTooLong (slashed more "d") = false := by
    have hsize : "d".utf8ByteSize = 1 := by decide
    simp [FileTree.isTooLong, slashed_size, hsize, short]
  have hlocate : oneDump.locate (slashed more "d") = .ok (["home", "a", "d"], .folder) := by
    rw [FileTree.locate_congr oneDump hsame (endsInStep_of_getLast hlast (by decide) (by decide))
      ⟨"d", by decide +kernel⟩ (hlong.trans (by decide +kernel))]
    decide +kernel
  have hbelow : oneDump.filesBelow ["home", "a", "d"] = [["x.json"]] := by decide +kernel
  have hjoin : (slashed more "d").join "x.json" = slashed more "d/x.json" := by
    simp only [join, hlast]
    simp [slashed, String.append_assoc]
  have hisDump : FileTree.isDump ["x.json"] = true := by decide +kernel
  simp [FileTree.gather, hlocate, hbelow, FileTree.isFound, hisDump, hlong, hjoin]

/-- Of two spellings of a path the first is kept. -/
theorem distinct_pair {a b : Path} (h : a.same b = true) : distinct [a, b] = [a] := by
  have hsorted : [a, b].Pairwise fun a b => a.notAfter b = true := by
    simp [notAfter_of_same h]
  have hback : b.same a = true := same_iff.mpr (same_iff.mp h).symm
  rw [distinct, List.mergeSort_of_pairwise hsorted, List.eraseDupsBy_cons]
  simp [hback]

/-- Options that only give paths. -/
def checking (paths : List Path) : Options :=
  ⟨paths, false, none, false, false⟩

/-- The dump, found under its shortest spelling, gives nothing. -/
theorem oneDump_clean : ∃ analysis,
    oneDump.analyzeAtM (m := Strict) .default false (slashed 0 "d/x.json") = .ok (.ok analysis) ∧
      analysis.diagnostics = [] :=
  exists_analysis (by decide +kernel)

/-- What a run over the paths comes to if its dumps give results. -/
theorem analyzeAllM_of_results (read : PatternReader) {tree : FileTree} {paths found : List Path}
    {results : List (Path × Except Failure Analysis)} (hfound : gatherAll tree paths = .ok found)
    (hsome : found ≠ [])
    (alone : ∀ result ∈ results,
      tree.analyzeAtM (m := Strict) .default false result.1 = .ok result.2)
    (hresults : results.map Prod.fst = distinct found) : ∃ outcome,
    analyzeAllM (m := Strict) read tree (checking paths) none = .ok (.ok outcome) ∧
      Collects tree .default false results outcome := by
  obtain ⟨outcome, houtcome, hcollects⟩ := collects_ofResults alone
  refine ⟨outcome, ?_, hcollects⟩
  have hprepare : prepare read tree (checking paths) none = .ok (.default, distinct found) := by
    have hdumps := mt distinct_eq_nil.mp hsome
    simp [prepare, dumpsOf, settingsOf, checking, hfound, hdumps, bind, Except.bind, pure,
      Except.pure]
  have hmap := mapM_paired_eq_ok.mpr ⟨hresults, alone⟩
  rw [analyzeAllM, hprepare]
  exact bind_eq_ok.mpr ⟨results, hmap, congrArg Except.ok houtcome⟩

/-- A run over two spellings of the folder analyzes the dump as the first one spells it. -/
theorem oneDump_run (read : PatternReader) {m n : Nat} (hm : m + 3 < FileTree.pathLimit)
    (hn : n + 3 < FileTree.pathLimit) {result : Except Failure Analysis}
    (alone : oneDump.analyzeAtM (m := Strict) .default false (slashed m "d/x.json") =
      .ok result) : ∃ outcome,
    analyzeAllM (m := Strict) read oneDump (checking [slashed m "d", slashed n "d"]) none =
        .ok (.ok outcome) ∧
      Collects oneDump .default false [(slashed m "d/x.json", result)] outcome := by
  have hfound : gatherAll oneDump [slashed m "d", slashed n "d"] =
      .ok [slashed m "d/x.json", slashed n "d/x.json"] := by
    simp [gatherAll, oneDump_gather hm, oneDump_gather hn, Except.map]
  have hsame : (slashed m "d/x.json").same (slashed n "d/x.json") = true := by
    rw [same_iff, slashed_components, slashed_components]
  refine analyzeAllM_of_results read hfound (by simp) (by simpa using alone) ?_
  rw [distinct_pair hsame]
  rfl

/-- Two spellings of a folder that differ in the order they are given in: the dump in it cannot be
read if the one that makes its path too long comes first, and is analyzed if it comes last. -/
theorem first_spelling_decides (read : PatternReader) : ∃ outcome outcome',
    analyzeAllM (m := Strict) read oneDump (checking [slashed 4090 "d", slashed 0 "d"]) none =
        .ok (.ok outcome) ∧
      analyzeAllM (m := Strict) read oneDump (checking [slashed 0 "d", slashed 4090 "d"]) none =
        .ok (.ok outcome') ∧
      outcome.exitCode = 2 ∧ outcome'.exitCode = 0 := by
  have hlong : 4090 + 3 < FileTree.pathLimit := by decide
  have hshort : 0 + 3 < FileTree.pathLimit := by decide
  have htooLong : FileTree.isTooLong (slashed 4090 "d/x.json") = true := by
    have hsize : "d/x.json".utf8ByteSize = 8 := by decide
    simp [FileTree.isTooLong, FileTree.pathLimit, slashed_size, hsize]
  obtain ⟨failure, hfailure⟩ : ∃ failure, oneDump.analyzeAtM (m := Strict) .default false
      (slashed 4090 "d/x.json") = .ok (.error failure) :=
    FileTree.analyzeAtM_of_tooLong htooLong
  obtain ⟨analysis, hanalysis, hnothing⟩ := oneDump_clean
  obtain ⟨outcome, hrun, hcollects⟩ := oneDump_run read hlong hshort hfailure
  obtain ⟨outcome', hrun', hcollects'⟩ := oneDump_run read hshort hlong hanalysis
  refine ⟨outcome, outcome', hrun, hrun', ?_, ?_⟩
  · exact hcollects.broken.mpr ⟨_, List.mem_singleton_self _, failure, rfl⟩
  · refine hcollects'.clean.mpr ⟨by simp, ?_⟩
    simp [hcollects'.diagnostics, findingsOf, hnothing]

end Spellings

section Places

end Places

end CommandLine

end LeastContext
