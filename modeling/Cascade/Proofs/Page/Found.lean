import Cascade.Proofs.FileTree.Sound
import Cascade.Proofs.Page.Compressed
import Cascade.Serve.Response
/-!
Pages are found where they were written. Whatever earlier writes left there, the file that is looked up at
the path of a page is the one that was written last: the compressed form if that is the only one that
was asked for, and the plain form otherwise.
-/

namespace Cascade

namespace Target

variable {t : FileTree} {path : String} {L : Location} {content : Bytes}

theorem at?_of_file (h : t.resolve true path = .ok (.found L (.file content))) :
    at? t path = some ⟨path, false⟩ := by
  rw [at?, if_pos (by simp [FileTree.isFile, FileTree.lookup, h])]

theorem at?_of_compressed (hno : t.isFile path = false)
    (h : t.resolve true (Page.gzipPath path) = .ok (.found L (.file content))) :
    at? t path = some ⟨path, true⟩ := by
  rw [at?, if_neg (by simp [hno]), if_pos (by simp [FileTree.isFile, FileTree.lookup, h])]

end Target

theorem Response.ofTarget_of_read {t : FileTree} {x : Target} {content : Bytes}
    (h : t.read x.file = .ok content) (status : Nat) :
    ofTarget t status x = some
      { status := status
        contentType := Cascade.contentType (Path.extension? x.path)
        compressed := x.compressed
        body := content } := by
  rw [ofTarget, h]

namespace Page

theorem sound_makePlace {t : FileTree} (h : t.Sound) (path : String) : (makePlace t path).1.Sound := by
  rw [makePlace_fst]
  cases Path.parent? path with
  | none => exact h
  | some dir => exact h.makeDirAll dir

section Write

variable {t u : FileTree} {path : String} {html : Bytes} {forms : Forms} (h : t.Sound)
  (hwrite : write t path html forms = (u, .ok ()))

include h hwrite

/-- The plain form stands at the path, also behind the compressed one. -/
theorem resolve_of_plain (hplain : forms.plain = true) :
    ∃ L, u.resolve true path = .ok (.found L (.file html)) := by
  simp only [write, hplain, if_true] at hwrite
  have hok := congrArg Prod.snd hwrite
  cases hc : forms.compressed with
  | false =>
    simp only [hc, Bool.false_eq_true, if_false] at hwrite hok
    obtain ⟨-, hstep, he⟩ := Written.ok_of_andThen hok
    obtain ⟨L, -, -, hr⟩ := exists_put_of_writePlain hstep
    rw [← he, hwrite] at hr
    exact ⟨L, hr⟩
  | true =>
    simp only [hc, if_true] at hwrite hok
    obtain ⟨hok', hstep, he⟩ := Written.ok_of_andThen hok
    obtain ⟨-, hstep', he'⟩ := Written.ok_of_andThen hok'
    obtain ⟨L, -, -, hr⟩ := exists_put_of_writePlain hstep'
    have hsound := (sound_makePlace h path).write path html
    rw [← writePlain_fst] at hsound
    rw [hwrite, he'] at he
    rw [he'] at hstep
    have hgzip := write_of_writeCompressed hstep
    rw [← he] at hgzip
    exact ⟨L, hsound.resolve_of_write_append (by decide) (by decide) hr hgzip⟩

/-- The compressed form stands alone behind the path of a page if the plain one is not asked for. -/
theorem resolve_of_compressed (hplain : forms.plain = false) (hc : forms.compressed = true)
    (hne : path ≠ "") :
    (∃ L, u.resolve true (gzipPath path) = .ok (.found L (.file (Gzip.compress html)))) ∧
      u.isFile path = false ∧ Path.withoutExtension (gzipPath path) = path := by
  simp only [write, hplain, hc, Bool.false_eq_true, if_true, if_false] at hwrite
  obtain ⟨hok, hstep, he⟩ := Written.ok_of_andThen (congrArg Prod.snd hwrite)
  obtain ⟨-, hstep', he'⟩ := Written.ok_of_andThen hok
  rw [hwrite, he'] at he
  rw [he'] at hstep
  obtain ⟨L, -, -, hr⟩ := FileTree.exists_put_of_write (write_of_writeCompressed hstep')
  have hsound := (sound_makePlace h path).write (gzipPath path) (Gzip.compress html)
  rw [← writeCompressed_fst] at hsound
  obtain ⟨hleft, hgone, front, s, hs, hname⟩ := hsound.removeFile_of_append hne (by decide) (by decide) hr
    ((removePlain_snd_eq_ok _ path).mp hstep)
  rw [← removePlain_fst, ← he] at hleft hgone
  refine ⟨⟨L, hleft⟩, hgone, ?_⟩
  rw [gzipPath, show ".gz" = "." ++ "gz" by decide, ← String.append_assoc]
  exact Path.withoutExtension_append hs hname (by decide) (by decide) (by decide)

end Write

/-- A page that was written is found at its path, by its plain form if it has one, and its compressed form
is served under the type of the page. -/
theorem found_of_write {t u : FileTree} {path : String} {html : Bytes} {c : PageConfig} {small : Bool}
    (h : t.Sound) (hname : Path.fileName? path ≠ none)
    (hwrite : write t path html (forms c small) = (u, .ok ())) :
    ∃ x bytes, Target.at? u path = some x ∧ u.read x.file = .ok bytes ∧
      (x.compressed = true ↔ small = true ∧ c.opt "gziponly" = true) ∧
      (if x.compressed then Gzip.decompress? bytes = some html else bytes = html) ∧
      (if x.compressed then Path.withoutExtension x.file else x.file) = path ∧
      ∀ status, Response.ofTarget u status x = some
        { status := status
          contentType := contentType (Path.extension? path)
          compressed := x.compressed
          body := bytes } := by
  have honly : (forms c small).plain = false ↔ small = true ∧ c.opt "gziponly" = true := by
    simp only [forms]
    cases small <;> cases c.opt "gziponly" <;> simp
  cases hplain : (forms c small).plain with
  | true =>
    obtain ⟨L, hr⟩ := resolve_of_plain h hwrite hplain
    have hread : u.read path = .ok html := FileTree.read_eq_ok.mpr ⟨L, hr⟩
    refine ⟨⟨path, false⟩, html, Target.at?_of_file hr, hread, ?_, rfl, rfl,
      Response.ofTarget_of_read hread⟩
    rw [← honly, hplain]
    simp
  | false =>
    have hc : (forms c small).compressed = true := by
      obtain ⟨hsmall, hopt⟩ := honly.mp hplain
      simp [forms, hsmall, hopt]
    have hne : path ≠ "" := by
      rintro rfl
      exact hname (by decide)
    obtain ⟨⟨L, hr⟩, hno, hwithout⟩ := resolve_of_compressed h hwrite hplain hc hne
    have hread : u.read (gzipPath path) = .ok (Gzip.compress html) :=
      FileTree.read_eq_ok.mpr ⟨L, hr⟩
    refine ⟨⟨path, true⟩, Gzip.compress html, Target.at?_of_compressed hno hr, hread, ?_,
      Gzip.decompress?_compress html, hwithout, Response.ofTarget_of_read hread⟩
    rw [← honly, hplain]
    simp

section Instance

/-- A page that is asked for in its compressed form only. -/
def zippedOnly : PageConfig := { opts := Table.empty.insert "gziponly" true }

theorem published_sound : published.Sound :=
  ⟨published_wellFormed, published_linkFree, FileTree.entry?_nil _⟩

/-- Where both forms of an old page stand the compressed form of the new one is found. -/
theorem found_of_write_zippedOnly :
    published.Sound ∧ Path.fileName? "/p.html" ≠ none ∧ ∃ u x bytes,
      write published "/p.html" [98] (forms zippedOnly true) = (u, .ok ()) ∧
        Target.at? u "/p.html" = some x ∧ u.read x.file = .ok bytes ∧ x.compressed = true ∧
        Gzip.decompress? bytes = some [98] := by
  obtain ⟨u, hwrite, -⟩ := write_published [98] (forms zippedOnly true)
  have hname : Path.fileName? "/p.html" ≠ none := by decide
  obtain ⟨x, bytes, hfound, hread, hcompressed, hbytes, -⟩ :=
    found_of_write published_sound hname hwrite
  have hx : x.compressed = true := hcompressed.mpr (by decide)
  rw [if_pos hx] at hbytes
  exact ⟨published_sound, hname, u, x, bytes, hwrite, hfound, hread, hx, hbytes⟩

end Instance

end Page

end Cascade
