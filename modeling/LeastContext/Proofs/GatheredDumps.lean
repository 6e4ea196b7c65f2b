import LeastContext.CommandLine.Run
import LeastContext.Proofs.FilePaths
import LeastContext.Proofs.Lists

namespace LeastContext.CommandLine

section Distinct

variable {paths paths' : List Path}

theorem distinct_keys (paths : List Path) : ((distinct paths).map Path.components).Nodup ∧
    ∀ components, components ∈ (distinct paths).map Path.components ↔
      components ∈ paths.map Path.components := by
  obtain ⟨hnodup, hkeys⟩ := eraseDupsBy_keys Path.components (paths.mergeSort Path.notAfter)
  refine ⟨hnodup, ?_⟩
  intro components
  rw [← ((List.mergeSort_perm paths Path.notAfter).map Path.components).mem_iff]
  exact hkeys components

theorem distinct_subset : distinct paths ⊆ paths := by
  intro path hpath
  have hsublist := eraseDupsBy_sublist Path.same (paths.mergeSort Path.notAfter)
  exact List.mem_mergeSort.mp (hsublist.subset hpath)

end Distinct

section Gathering

variable {tree : FileTree} {paths found : List Path}

end Gathering

section Dumps

variable {tree : FileTree} {paths found : List Path}

theorem distinct_eq_nil : distinct found = [] ↔ found = [] := by
  constructor
  · intro h
    refine List.eq_nil_iff_forall_not_mem.mpr ?_
    intro path hpath
    have hkey := ((distinct_keys found).2 path.components).mpr (List.mem_map_of_mem hpath)
    simp [h] at hkey
  · rintro rfl
    exact List.eq_nil_of_subset_nil distinct_subset

end Dumps

end LeastContext.CommandLine
