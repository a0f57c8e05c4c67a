import Cascade.Proofs.FileTree.Written
import Cascade.Proofs.Gzip.Stored
import Cascade.Proofs.Page.Write
/-!
The compressed form beside a page. A write that compresses leaves no other one there than its own,
whatever stood there before and wherever the path of either form leads. A write that does not compress
leaves the one that is there, though it may be that of an earlier page.
-/

namespace Cascade.Page

open FileTree (Opens)

section Steps

variable {t u : FileTree} {path : String} {html : Bytes}

theorem fileAt_makePlace (t : FileTree) (path : String) (M : List String) :
    FileTree.fileAt (makePlace t path).1 M = t.fileAt M := by
  rw [makePlace_fst]
  cases Path.parent? path with
  | none => rfl
  | some dir => exact FileTree.fileAt_makeDirAll t dir M

theorem exists_put_of_writePlain (h : (writePlain t path html).2 = .ok ()) :
    ∃ L, L ≠ [] ∧ (writePlain t path html).1 = t.put L (.file html) ∧
      FileTree.resolve (writePlain t path html).1 true path = .ok (.found L (.file html)) := by
  rw [writePlain_fst]
  exact FileTree.exists_put_of_write (Prod.ext rfl ((writePlain_snd_eq_ok t path html).mp h))

/-- The compressed form is written to its path. -/
theorem write_of_writeCompressed (h : (writeCompressed t path html).2 = .ok ()) :
    t.write (gzipPath path) (Gzip.compress html) = ((writeCompressed t path html).1, .ok ()) :=
  Prod.ext (writeCompressed_fst t path html).symm ((writeCompressed_snd_eq_ok t path html).mp h)

/-- The compressed form is read as it was written. -/
theorem read_of_writeCompressed (h : (writeCompressed t path html).2 = .ok ()) :
    FileTree.read (writeCompressed t path html).1 (gzipPath path) = .ok (Gzip.compress html) := by
  obtain ⟨L, -, -, hr⟩ := FileTree.exists_put_of_write (write_of_writeCompressed h)
  exact FileTree.read_eq_ok.mpr ⟨L, hr⟩

end Steps

/-- Two paths lead to one file. -/
def OneFile (t : FileTree) (path other : String) : Prop :=
  ∃ L content, t.resolve true path = .ok (.found L (.file content)) ∧
    t.resolve true other = .ok (.found L (.file content))

/-- The file that a path leads to in `u` stood in `t` with the same content. -/
def LeftOver (t u : FileTree) (path : String) : Prop :=
  ∃ L content, u.resolve true path = .ok (.found L (.file content)) ∧ t.fileAt L = some content

section Write

variable {t u : FileTree} {path : String} {html bytes : Bytes}

/-- What is left of the compressed form after the plain one was removed is the form that was written. -/
theorem read_of_compressed {forms : Forms} (hc : forms.compressed = true)
    (hwrite : write t path html forms = (u, .ok ()))
    (hread : u.read (gzipPath path) = .ok bytes) : bytes = Gzip.compress html := by
  unfold write at hwrite
  simp only [hc, if_true] at hwrite
  have hok := congrArg Prod.snd hwrite
  cases hp : forms.plain with
  | true =>
    simp only [hp, if_true] at hwrite hok
    obtain ⟨-, hstep, he⟩ := Written.ok_of_andThen hok
    have hgzip := read_of_writeCompressed hstep
    rw [← he, hwrite, hread] at hgzip
    exact Except.ok.inj hgzip
  | false =>
    simp only [hp, Bool.false_eq_true, if_false] at hwrite hok
    obtain ⟨hcompressed, -, he⟩ := Written.ok_of_andThen hok
    obtain ⟨-, hstep, he'⟩ := Written.ok_of_andThen hcompressed
    have hgzip := read_of_writeCompressed hstep
    rw [hwrite] at he
    have hu := congrArg Prod.fst he
    rw [removePlain_fst] at hu
    rw [show u = _ from hu] at hread
    rw [← he', FileTree.read_of_removeFile hread] at hgzip
    exact Except.ok.inj hgzip

/-- Without compression only the plain form is put in its place. -/
theorem leftOver_of_plain (hwrite : write t path html ⟨true, false⟩ = (u, .ok ()))
    (hread : u.read (gzipPath path) = .ok bytes) :
    LeftOver t u (gzipPath path) ∨ OneFile u path (gzipPath path) := by
  simp only [write, if_true, Bool.false_eq_true, if_false] at hwrite
  obtain ⟨-, hstep, he⟩ := Written.ok_of_andThen (congrArg Prod.snd hwrite)
  obtain ⟨L, hL, hput, hplain⟩ := exists_put_of_writePlain hstep
  rw [← he, hwrite] at hput hplain
  simp only at hput hplain
  obtain ⟨M, hM⟩ := FileTree.read_eq_ok.mp hread
  by_cases hML : M = L
  · subst hML
    have hfile := (FileTree.entry_of_found hplain).symm.trans (FileTree.entry_of_found hM)
    obtain rfl : html = bytes := by simpa using hfile
    exact .inr ⟨M, html, hplain, hM⟩
  · have hfile : u.fileAt M = some bytes := FileTree.fileAt_eq_some.mpr (FileTree.entry_of_found hM)
    refine .inl ⟨M, bytes, hM, ?_⟩
    rwa [hput, FileTree.fileAt_put_file _ hL, if_neg hML, fileAt_makePlace] at hfile

/-- A compressed form that is there after a write decompresses to the page if the write compresses. If it
does not, the form is a file that was there before, unless it is the file of the page itself. -/
theorem sibling_of_write {c : PageConfig} {small : Bool}
    (hwrite : write t path html (forms c small) = (u, .ok ()))
    (hread : u.read (gzipPath path) = .ok bytes) :
    (small = true ∧ (c.opt "gziponly" = true ∨ c.opt "gzip" = true) →
        Gzip.decompress? bytes = some html) ∧
      (¬(small = true ∧ (c.opt "gziponly" = true ∨ c.opt "gzip" = true)) →
        LeftOver t u (gzipPath path) ∨ OneFile u path (gzipPath path)) := by
  have hiff : small = true ∧ (c.opt "gziponly" = true ∨ c.opt "gzip" = true) ↔
      (forms c small).compressed = true := by
    simp [forms]
  rw [hiff]
  refine ⟨fun hc => ?_, fun hc => ?_⟩
  · rw [read_of_compressed hc hwrite hread]
    exact Gzip.decompress?_compress html
  · have hforms : forms c small = ⟨true, false⟩ := by
      rw [Bool.not_eq_true] at hc
      have hplain : (forms c small).plain = true := by
        simp only [forms] at hc ⊢
        simp [hc]
      calc forms c small = ⟨(forms c small).plain, (forms c small).compressed⟩ := rfl
        _ = ⟨true, false⟩ := by rw [hplain, hc]
    exact leftOver_of_plain (hforms ▸ hwrite) hread

end Write

section Instance

/-- A page that is asked for in both forms. -/
def zipped : PageConfig := { opts := Table.empty.insert "gzip" true }

/-- A page in both forms, at the root of the tree. -/
def published : FileTree :=
  { cwd := []
    entries := [(["p.html"], .file [97]), (["p.html.gz"], .file (Gzip.compress [97]))] }

theorem published_wellFormed : published.WellFormed :=
  FileTree.wellFormed_of_entries (by decide) (by decide) (by decide)

theorem published_linkFree : published.LinkFree := FileTree.linkFree_of_entries (by decide)

/-- The page can be written again in any forms. -/
theorem write_published (html : Bytes) (forms : Forms) :
    ∃ u, write published "/p.html" html forms = (u, .ok ()) ∧
      Wrote published "/" [] [] "p.html" html forms (u, .ok ()) := by
  have hroot : published.Opens "/" [] := FileTree.opens_root published
  have hfree : ¬published.Blocked "/" [] [] := by
    rintro ⟨front, n, hfront, -⟩
    simp at hfront
  have hcan : ∀ n ∈ ["p.html", "p.html.gz"], CanPut published "/" [] n := by
    simp only [CanPut]
    decide
  have hok : (write published (Path.join (Path.descend "/" []) "p.html") html forms).2 = .ok () :=
    write_ok hroot published_wellFormed published_linkFree (by simp) (by decide) hfree
      (hcan _ (by simp)) fun _ => hcan _ (by decide)
  have hwrote := wrote hroot published_wellFormed published_linkFree
    (show ∀ m ∈ [], Path.IsName m by simp) (show Path.IsName "p.html" by decide) html forms
  rw [show Path.join (Path.descend "/" []) "p.html" = "/p.html" by decide] at hok hwrote
  generalize write published "/p.html" html forms = w at hok hwrote
  obtain ⟨u, r⟩ := w
  obtain rfl : r = .ok () := hok
  exact ⟨u, rfl, hwrote⟩

theorem read_written {u : FileTree} {html content : Bytes} {forms : Forms} {n : String}
    (h : Wrote published "/" [] [] "p.html" html forms (u, .ok ())) (hn : Path.IsName n)
    (hroom : FileTree.refusal? (Path.join "/" n) n = none) (hfile : u.fileAt [n] = some content) :
    u.read (Path.join "/" n) = .ok content :=
  (h.opens rfl).read_join_of_file hn hroom (FileTree.fileAt_eq_some.mp hfile)

/-- A new page takes the place of an old one in both forms. -/
theorem sibling_of_write_zipped :
    ∃ u bytes, write published "/p.html" [98] (forms zipped true) = (u, .ok ()) ∧
      u.read (gzipPath "/p.html") = .ok bytes ∧ Gzip.decompress? bytes = some [98] := by
  obtain ⟨u, hwrite, hwrote⟩ := write_published [98] (forms zipped true)
  have hread : u.read (gzipPath "/p.html") = .ok (Gzip.compress [98]) :=
    read_written (n := "p.html.gz") hwrote (by decide) (by decide)
      (hwrote.compressed_of_ok rfl (by decide))
  exact ⟨u, _, hwrite, hread, (sibling_of_write hwrite hread).1 (by decide)⟩

/-- A new page that is not compressed leaves the compressed form of the old one. -/
theorem sibling_of_write_stale :
    ∃ u bytes, write published "/p.html" [98] (forms {} true) = (u, .ok ()) ∧
      u.read "/p.html" = .ok [98] ∧ u.read (gzipPath "/p.html") = .ok bytes ∧
      Gzip.decompress? bytes = some [97] := by
  obtain ⟨u, hwrite, hwrote⟩ := write_published [98] (forms {} true)
  have hplain : u.fileAt ["p.html"] = some [98] := hwrote.plain_of_ok rfl
  have hsibling : u.fileAt ["p.html.gz"] = some (Gzip.compress [97]) := by
    have hsame := hwrote.compressed.resolve_right (by rintro ⟨hc, -⟩; cases hc)
    exact hsame.trans rfl
  exact ⟨u, _, hwrite, read_written (n := "p.html") hwrote (by decide) (by decide) hplain,
    read_written (n := "p.html.gz") hwrote (by decide) (by decide) hsibling,
    Gzip.decompress?_compress [97]⟩

end Instance

end Cascade.Page
