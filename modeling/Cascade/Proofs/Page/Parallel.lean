import Cascade.Proofs.FileTree.Alike
import Cascade.Proofs.Page.Write
/-!
Pages on two trees at once. If each operation on the files ends in the same way on both trees, so does
the writing of a page, and it leaves trees that are to each other as they were. The paths may be others
in the other tree, and be told in its errors.
-/

namespace Cascade.Page

open FileTree (SameEnd)

/-- Two pages end in the same way, but for the texts of their errors. -/
inductive SameWritten (R : FileTree → FileTree → Prop) (E : BuildError → BuildError → Prop) :
    Written → Written → Prop
  | ok {t t' : FileTree} (h : R t t') : SameWritten R E (t, .ok ()) (t', .ok ())
  | error {t t' : FileTree} {e e' : BuildError} (h : R t t') (he : E e e') :
    SameWritten R E (t, .error e) (t', .error e')

variable {R : FileTree → FileTree → Prop} {E : BuildError → BuildError → Prop} {t t' : FileTree}
  {path path' : String} {html : Bytes}

theorem SameWritten.andThen_same {w w' : Written} (h : SameWritten R E w w')
    {step step' : FileTree → Written}
    (hstep : ∀ {u u' : FileTree}, R u u' → SameWritten R E (step u) (step' u')) :
    SameWritten R E (w.andThen step) (w'.andThen step') := by
  cases h with
  | ok h => exact hstep h
  | error h he => exact .error h he

theorem SameWritten.ofEnd {ε : Type} {w w' : FileTree × Except ε Unit}
    {told told' : ε → BuildError} (h : SameEnd R w w') (htold : ∀ e, E (told e) (told' e)) :
    SameWritten R E (.ofEnd told w) (.ofEnd told' w') := by
  cases h with
  | mk h r =>
    cases r with
    | ok => exact .ok h
    | error e => exact .error h (htold e)

theorem writeCompressed_same
    (hE : ∀ e, E (.compress (gzipPath path) e) (.compress (gzipPath path') e))
    (h : SameEnd R (t.write (gzipPath path) (Gzip.compress html))
      (t'.write (gzipPath path') (Gzip.compress html))) :
    SameWritten R E (writeCompressed t path html) (writeCompressed t' path' html) := by
  rw [writeCompressed_eq, writeCompressed_eq]
  exact .ofEnd h hE

section Steps

variable (hE : ∀ e, E (.write path e) (.write path' e))

include hE

theorem makePlace_same {dir dir' : String} (hdir : Path.parent? path = some dir)
    (hdir' : Path.parent? path' = some dir')
    (h : SameEnd R (t.makeDirAll dir) (t'.makeDirAll dir')) :
    SameWritten R E (makePlace t path) (makePlace t' path') := by
  rw [makePlace_of_parent t path hdir, makePlace_of_parent t' path' hdir']
  exact .ofEnd h hE

theorem writePlain_same (h : SameEnd R (t.write path html) (t'.write path' html)) :
    SameWritten R E (writePlain t path html) (writePlain t' path' html) := by
  rw [writePlain_eq, writePlain_eq]
  exact .ofEnd h hE

theorem removePlain_same (h : SameEnd R (t.removeFile path) (t'.removeFile path')) :
    SameWritten R E (removePlain t path) (removePlain t' path') := by
  unfold removePlain
  generalize t.removeFile path = removed at h ⊢
  generalize t'.removeFile path' = removed' at h ⊢
  cases h with
  | mk h r =>
    cases r with
    | ok => exact .ok h
    | error e =>
      simp only
      split
      · exact .ok h
      · exact .error h (hE e)

end Steps

theorem write_same (hplace : SameWritten R E (makePlace t path) (makePlace t' path'))
    (hplain : ∀ {u u' : FileTree}, R u u' →
      SameWritten R E (writePlain u path html) (writePlain u' path' html))
    (hcompressed : ∀ {u u' : FileTree}, R u u' →
      SameWritten R E (writeCompressed u path html) (writeCompressed u' path' html))
    (hremoved : ∀ {u u' : FileTree}, R u u' →
      SameWritten R E (removePlain u path) (removePlain u' path')) (forms : Forms) :
    SameWritten R E (write t path html forms) (write t' path' html forms) := by
  unfold write
  cases forms.plain <;> cases forms.compressed
  · exact hplace.andThen_same hremoved
  · exact (hplace.andThen_same hcompressed).andThen_same hremoved
  · exact hplace.andThen_same hplain
  · exact (hplace.andThen_same hplain).andThen_same hcompressed

end Cascade.Page
