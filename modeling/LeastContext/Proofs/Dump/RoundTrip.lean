import LeastContext.Proofs.Dump.Readable

namespace LeastContext

namespace Dump

namespace Decodes

variable {depth : Nat}

/-- A declaration is read with the readers of its own depth. -/
theorem decl {d : Decl} (fits : (Node.decl d).Fits) : Decodes depth decl? d.toJson d := by
  intro _
  have h := treeReaders_readBack d.toJson.depth
  have written : Decodes (d.toJson.depth + 1)
      (Dump.tagged "decl" ["func", "gen"] false (declFields (treeReaders d.toJson.depth)))
      d.toJson d := by
    generalize treeReaders d.toJson.depth = readers, d.toJson.depth = depth at h
    cases d with
    | func d =>
      have hd := fits.part .func
      refine .tagged rfl (by decide) ?_
      refine .bind (.optional rfl (.nullable nofun fun fields hf =>
        .list fun field hfield => h.field (hd.part (.receiver hf hfield)))) ?_
      refine .bind (.required rfl (.ident (hd.part .funcName))) ?_
      refine .bind (.required rfl (h.funcType (hd.part .signature))) ?_
      refine .bind (.optional rfl (.nullable (fun b => by cases b; nofun) fun body hb =>
        h.block (hd.part (.body hb)))) ?_
      exact .pure _
    | gen d =>
      have hd := fits.part .gen
      obtain ⟨kind, specs⟩ := d
      refine .tagged rfl (by decide) ?_
      refine .bind (h.genDecl hd rfl rfl) ?_
      exact .pure _
  exact written (Nat.le_succ _)

end Decodes

end Dump

namespace Program

variable {p : Program}

end Program

end LeastContext
