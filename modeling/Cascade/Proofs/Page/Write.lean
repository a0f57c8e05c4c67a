import Cascade.Page.Write
import Cascade.Proofs.FileTree.Files
/-!
What writing a page does to the tree. Files change at two places at most, the one of the plain form
and the one of the compressed form, and directories are made on the way to them only. A page that is
written without an error leaves exactly its forms at these places.
-/

namespace Cascade.Page

open Path (IsName join descend)
open FileTree (Changed Grown Opens Made Blocked refusal?)

/-- The name of the compressed form of a page. -/
def gzipName (name : String) : String := name ++ ".gz"

theorem isName_gzipName {n : String} (h : IsName n) : IsName (gzipName n) :=
  h.append (by decide) (by decide)

theorem gzipName_ne (n : String) : gzipName n ≠ n := by
  intro h
  have hlength := congrArg String.length h
  simp [gzipName] at hlength

theorem gzipPath_join (X : String) {n : String} (h : IsName n) :
    gzipPath (join X n) = join X (gzipName n) :=
  Path.join_append X ".gz" h.segment

namespace Written

variable {w : Written} {step : FileTree → Written}

theorem andThen_of_ok (h : w.2 = .ok ()) : w.andThen step = step w.1 := by
  obtain ⟨t, r⟩ := w
  obtain rfl : r = .ok () := h
  rfl

theorem andThen_of_ne (h : w.2 ≠ .ok ()) : w.andThen step = w := by
  obtain ⟨t, r⟩ := w
  cases r with
  | ok u => exact absurd rfl h
  | error e => rfl

/-- What holds of the tree after each step holds of the tree in the end. -/
theorem andThen_induct {I : FileTree → Prop} (h : I w.1) (hstep : w.2 = .ok () → I (step w.1).1) :
    I (w.andThen step).1 := by
  by_cases hw : w.2 = .ok ()
  · rw [andThen_of_ok hw]
    exact hstep hw
  · rw [andThen_of_ne hw]
    exact h

theorem andThen_ok_iff : (w.andThen step).2 = .ok () ↔ w.2 = .ok () ∧ (step w.1).2 = .ok () := by
  by_cases hw : w.2 = .ok ()
  · rw [andThen_of_ok hw, and_iff_right hw]
  · rw [andThen_of_ne hw]
    exact ⟨fun h => absurd h hw, fun h => h.1⟩

theorem ok_of_andThen (h : (w.andThen step).2 = .ok ()) :
    w.2 = .ok () ∧ (step w.1).2 = .ok () ∧ w.andThen step = step w.1 := by
  obtain ⟨hw, hstep⟩ := andThen_ok_iff.mp h
  exact ⟨hw, hstep, andThen_of_ok hw⟩

end Written

/-- What the steps keep that a page takes in its forms, writing the page keeps. -/
theorem write_of_steps {P : Written → Prop} {t : FileTree} {path : String} {html : Bytes}
    {forms : Forms} (placed : P (makePlace t path))
    (plain : forms.plain = true → ∀ w, P w → P (w.andThen (writePlain · path html)))
    (compressed : forms.compressed = true → ∀ w, P w → P (w.andThen (writeCompressed · path html)))
    (removed : forms.plain = false → ∀ w, P w → P (w.andThen (removePlain · path))) :
    P (write t path html forms) := by
  unfold write
  cases hp : forms.plain with
  | true =>
    cases hc : forms.compressed with
    | false => exact plain hp _ placed
    | true => exact compressed hc _ (plain hp _ placed)
  | false =>
    cases hc : forms.compressed with
    | false => exact removed hp _ placed
    | true => exact removed hp _ (compressed hc _ placed)

/-! The steps, and the operation on a file that each of them consists of. -/

/-- What became of an operation on files, its error told as one of the page. -/
def Written.ofEnd {ε : Type} (told : ε → BuildError) (w : FileTree × Except ε Unit) : Written :=
  (w.1, w.2.mapError told)

theorem Written.ofEnd_snd_eq_ok {ε : Type} {told : ε → BuildError} {w : FileTree × Except ε Unit} :
    (Written.ofEnd told w).2 = .ok () ↔ w.2 = .ok () := by
  obtain ⟨t, r⟩ := w
  cases r with
  | ok => exact iff_of_true rfl rfl
  | error e => exact iff_of_false nofun nofun

section Operations

variable (t : FileTree) (path : String) (html : Bytes)

theorem writePlain_eq : writePlain t path html = .ofEnd (.write path) (t.write path html) := by
  unfold writePlain
  split <;> simp [*, Written.ofEnd, Except.mapError]

theorem writeCompressed_eq : writeCompressed t path html =
    .ofEnd (.compress (gzipPath path)) (t.write (gzipPath path) (Gzip.compress html)) := by
  unfold writeCompressed
  simp only
  split <;> simp [*, Written.ofEnd, Except.mapError]

theorem makePlace_of_parent {dir : String} (h : Path.parent? path = some dir) :
    makePlace t path = .ofEnd (.write path) (t.makeDirAll dir) := by
  simp only [makePlace, h]
  split <;> simp [*, Written.ofEnd, Except.mapError]

theorem makePlace_fst : (makePlace t path).1 =
    (Path.parent? path).elim t fun dir => (t.makeDirAll dir).1 := by
  cases h : Path.parent? path with
  | none => simp only [makePlace, h, Option.elim_none]
  | some dir =>
    rw [makePlace_of_parent t path h]
    rfl

theorem writePlain_fst : (writePlain t path html).1 = (t.write path html).1 := by
  rw [writePlain_eq]
  rfl

theorem writePlain_snd_eq_ok :
    (writePlain t path html).2 = .ok () ↔ (t.write path html).2 = .ok () := by
  rw [writePlain_eq, Written.ofEnd_snd_eq_ok]

theorem writeCompressed_fst : (writeCompressed t path html).1 =
    (t.write (gzipPath path) (Gzip.compress html)).1 := by
  rw [writeCompressed_eq]
  rfl

theorem writeCompressed_snd_eq_ok : (writeCompressed t path html).2 = .ok () ↔
    (t.write (gzipPath path) (Gzip.compress html)).2 = .ok () := by
  rw [writeCompressed_eq, Written.ofEnd_snd_eq_ok]

theorem removePlain_fst : (removePlain t path).1 = (t.removeFile path).1 := by
  unfold removePlain
  split <;> simp [*]

/-- There may be no file to remove. -/
theorem removePlain_snd_eq_ok : (removePlain t path).2 = .ok () ↔
    (t.removeFile path).2 = .ok () ∨ (t.removeFile path).2 = .error .notFound := by
  unfold removePlain
  split <;> simp [*]

end Operations

/-! What can go wrong. -/

/-- A file or a directory of the output tree was refused. -/
def IsRefusal (e : BuildError) : Prop :=
  (∃ path cause, e = .write path cause) ∨ ∃ path cause, e = .compress path cause

/-- The page at `path` cannot be written, as it is or compressed. -/
def IsRefusalOf (path : String) (e : BuildError) : Prop :=
  (∃ cause, e = .write path cause) ∨ ∃ cause, e = .compress (gzipPath path) cause

theorem IsRefusalOf.isRefusal {path : String} {e : BuildError} (h : IsRefusalOf path e) :
    IsRefusal e :=
  h.imp (fun ⟨cause, he⟩ => ⟨path, cause, he⟩) fun ⟨cause, he⟩ => ⟨gzipPath path, cause, he⟩

theorem Written.andThen_refusal {path : String} {w : Written} {step : FileTree → Written}
    (h : ∀ e, w.2 = .error e → IsRefusalOf path e)
    (hstep : ∀ t e, (step t).2 = .error e → IsRefusalOf path e) (e : BuildError)
    (he : (w.andThen step).2 = .error e) : IsRefusalOf path e := by
  by_cases hw : w.2 = .ok ()
  · rw [andThen_of_ok hw] at he
    exact hstep w.1 e he
  · rw [andThen_of_ne hw] at he
    exact h e he

theorem makePlace_refusal (t : FileTree) (path : String) (e : BuildError)
    (he : (makePlace t path).2 = .error e) : IsRefusalOf path e := by
  unfold makePlace at he
  split at he
  · simp at he
  · split at he
    · simp at he
    · exact .inl ⟨_, (Except.error.inj he).symm⟩

theorem writePlain_refusal (html : Bytes) (path : String) (t : FileTree) (e : BuildError)
    (he : (writePlain t path html).2 = .error e) : IsRefusalOf path e := by
  unfold writePlain at he
  split at he
  · simp at he
  · exact .inl ⟨_, (Except.error.inj he).symm⟩

theorem writeCompressed_refusal (html : Bytes) (path : String) (t : FileTree) (e : BuildError)
    (he : (writeCompressed t path html).2 = .error e) : IsRefusalOf path e := by
  unfold writeCompressed at he
  simp only at he
  split at he
  · simp at he
  · exact .inr ⟨_, (Except.error.inj he).symm⟩

theorem removePlain_refusal (path : String) (t : FileTree) (e : BuildError)
    (he : (removePlain t path).2 = .error e) : IsRefusalOf path e := by
  unfold removePlain at he
  split at he
  · simp at he
  · simp only at he
    split at he
    · simp at he
    · exact .inl ⟨_, (Except.error.inj he).symm⟩

/-- Nothing goes wrong with a page but that it cannot be written. -/
theorem write_refusal (t : FileTree) (path : String) (html : Bytes) (forms : Forms) :
    ∀ e, (write t path html forms).2 = .error e → IsRefusalOf path e :=
  write_of_steps (P := fun w => ∀ e, w.2 = .error e → IsRefusalOf path e)
    (makePlace_refusal t path)
    (fun _ _ hw => Written.andThen_refusal hw (writePlain_refusal html path))
    (fun _ _ hw => Written.andThen_refusal hw (writeCompressed_refusal html path))
    (fun _ _ hw => Written.andThen_refusal hw (removePlain_refusal path))

/-! The single steps, in a directory that is open. -/

section Steps

variable {t : FileTree} {X n : String} {K : Location} (hX : t.Opens X K) (hl : t.LinkFree)
  (hn : IsName n)

include hX hl hn

/-- Whether the file `n` can be written, or taken away, in the directory `X` at `K`. -/
def CanPut (t : FileTree) (X : String) (K : List String) (n : String) : Prop :=
  refusal? (join X n) n = none ∧ t.entry? (K ++ [n]) ≠ some .directory

theorem writePlain_cases (html : Bytes) :
    (CanPut t X K n ∧ writePlain t (join X n) html = (t.put (K ++ [n]) (.file html), .ok ())) ∨
      (¬CanPut t X K n ∧ ∃ e, writePlain t (join X n) html = (t, .error e)) := by
  unfold writePlain CanPut
  rw [hX.write_join hl hn]
  cases hf : refusal? (join X n) n with
  | some e => simp
  | none => by_cases hdir : t.entry? (K ++ [n]) = some .directory <;> simp [hdir]

theorem writeCompressed_cases (html : Bytes) :
    (CanPut t X K (gzipName n) ∧ writeCompressed t (join X n) html =
        (t.put (K ++ [gzipName n]) (.file (Gzip.compress html)), .ok ())) ∨
      (¬CanPut t X K (gzipName n) ∧ ∃ e, writeCompressed t (join X n) html = (t, .error e)) := by
  unfold writeCompressed CanPut
  simp only
  rw [gzipPath_join X hn, hX.write_join hl (isName_gzipName hn)]
  cases hf : refusal? (join X (gzipName n)) (gzipName n) with
  | some e => simp
  | none => by_cases hdir : t.entry? (K ++ [gzipName n]) = some .directory <;> simp [hdir]

theorem removePlain_cases :
    (CanPut t X K n ∧ t.entry? (K ++ [n]) = none ∧ removePlain t (join X n) = (t, .ok ())) ∨
      (CanPut t X K n ∧ removePlain t (join X n) = (t.drop (K ++ [n]), .ok ())) ∨
      (¬CanPut t X K n ∧ ∃ e, removePlain t (join X n) = (t, .error e)) := by
  unfold removePlain CanPut
  rw [hX.removeFile_join hl hn]
  cases hf : refusal? (join X n) n with
  | some e => simp [(FileTree.refusal?_ne hf).1]
  | none =>
    cases hentry : t.entry? (K ++ [n]) with
    | none => simp
    | some e =>
      cases e with
      | directory => simp [show ¬FileError.isDirectory = FileError.notFound by decide]
      | file c => simp
      | link target => exact absurd hentry (hl _ _)

theorem writePlain_ok_iff (html : Bytes) :
    (writePlain t (join X n) html).2 = .ok () ↔ CanPut t X K n := by
  rcases writePlain_cases hX hl hn html with ⟨hcan, he⟩ | ⟨hno, e, he⟩
  · simp [he, hcan]
  · simp [he, hno]

theorem writeCompressed_ok_iff (html : Bytes) :
    (writeCompressed t (join X n) html).2 = .ok () ↔ CanPut t X K (gzipName n) := by
  rcases writeCompressed_cases hX hl hn html with ⟨hcan, he⟩ | ⟨hno, e, he⟩
  · simp [he, hcan]
  · simp [he, hno]

theorem removePlain_ok_iff : (removePlain t (join X n)).2 = .ok () ↔ CanPut t X K n := by
  rcases removePlain_cases hX hl hn with ⟨hcan, -, he⟩ | ⟨hcan, he⟩ | ⟨hno, e, he⟩
  · simp [he, hcan]
  · simp [he, hcan]
  · simp [he, hno]

end Steps

theorem makePlace_eq (t : FileTree) (X : String) {n : String} (hn : IsName n) :
    (makePlace t (join X n)).1 = (t.makeDirAll (Path.trimEnd X)).1 ∧
      ((makePlace t (join X n)).2 = .ok () ↔ (t.makeDirAll (Path.trimEnd X)).2 = .ok ()) := by
  rw [makePlace_of_parent t _ (Path.parent?_join X hn)]
  exact ⟨rfl, Written.ofEnd_snd_eq_ok⟩

/-- A tree on the way from `t`, while the page `n` in the directory at `pre` is written and that
directory is made. -/
structure Underway (t : FileTree) (out : String) (O pre : List String) (n : String) (html : Bytes)
    (forms : Forms) (u : FileTree) : Prop where
  changed : Changed (fun M => O <+: M ∧ M <+: O ++ pre)
    (fun M => M = O ++ pre ++ [n] ∨ M = O ++ pre ++ [gzipName n]) t u
  opens : u.Opens (descend out pre) (O ++ pre)
  wellFormed : u.WellFormed
  linkFree : u.LinkFree
  plain : u.fileAt (O ++ pre ++ [n]) = t.fileAt (O ++ pre ++ [n]) ∨
    u.fileAt (O ++ pre ++ [n]) = if forms.plain then some html else none
  compressed : u.fileAt (O ++ pre ++ [gzipName n]) = t.fileAt (O ++ pre ++ [gzipName n]) ∨
    forms.compressed ∧ u.fileAt (O ++ pre ++ [gzipName n]) = some (Gzip.compress html)

section Write

variable {t u : FileTree} {out : String} {O pre : List String} {n : String} {html : Bytes}
  {forms : Forms}

namespace Underway

variable (h : Underway t out O pre n html forms u) (hn : IsName n)

include h

/-- No directory is made in the place of a file, and none goes. -/
theorem canPut_iff {m : String} :
    CanPut u (descend out pre) (O ++ pre) m ↔ CanPut t (descend out pre) (O ++ pre) m := by
  refine and_congr_right fun _ => not_congr ⟨fun hdir => ?_, h.changed.directory⟩
  rcases h.changed.made hdir with hold | ⟨-, hle⟩
  · exact hold
  · exact absurd hle.length_le (by simp)

theorem entry_dir : u.entry? (O ++ pre) = some .directory := h.opens.entry h.wellFormed

/-- One of the two files is changed, each of them to what it is to be in the end if at all. -/
theorem step {v : FileTree} {m : String} (hm : m = n ∨ m = gzipName n)
    (hstep : Changed (fun _ => False) (· = O ++ pre ++ [m]) u v)
    (hplain : v.fileAt (O ++ pre ++ [n]) = u.fileAt (O ++ pre ++ [n]) ∨
      v.fileAt (O ++ pre ++ [n]) = if forms.plain then some html else none)
    (hcompressed : v.fileAt (O ++ pre ++ [gzipName n]) = u.fileAt (O ++ pre ++ [gzipName n]) ∨
      forms.compressed ∧ v.fileAt (O ++ pre ++ [gzipName n]) = some (Gzip.compress html)) :
    Underway t out O pre n html forms v where
  changed := by
    refine h.changed.trans (hstep.mono (fun _ => False.elim) ?_)
    rcases hm with rfl | rfl
    · exact fun _ => .inl
    · exact fun _ => .inr
  opens := hstep.opens h.wellFormed h.linkFree h.opens
  wellFormed := hstep.wellFormed h.wellFormed
  linkFree := hstep.linkFree h.linkFree
  plain := hplain.elim (fun he => he ▸ h.plain) .inr
  compressed := hcompressed.elim (fun he => he ▸ h.compressed) .inr

include hn

theorem writePlain (hplain : forms.plain = true) :
    Underway t out O pre n html forms (writePlain u (join (descend out pre) n) html).1 := by
  have hne : O ++ pre ++ [gzipName n] ≠ O ++ pre ++ [n] := by simpa using gzipName_ne n
  rcases writePlain_cases h.opens h.linkFree hn html with ⟨hcan, he⟩ | ⟨-, e, he⟩
  · have hstep := FileTree.changed_put_file hn (fun _ => h.entry_dir) hcan.2 html
    rw [he]
    refine h.step (.inl rfl) hstep (.inr ?_) (.inl (hstep.fileAt hne))
    rw [FileTree.fileAt_put_file _ (by simp), if_pos rfl, if_pos hplain]
  · rw [he]
    exact h

theorem writeCompressed (hcompressed : forms.compressed = true) :
    Underway t out O pre n html forms
      (writeCompressed u (join (descend out pre) n) html).1 := by
  have hne : O ++ pre ++ [n] ≠ O ++ pre ++ [gzipName n] := by simpa using (gzipName_ne n).symm
  rcases writeCompressed_cases h.opens h.linkFree hn html with ⟨hcan, he⟩ | ⟨-, e, he⟩
  · have hstep := FileTree.changed_put_file (isName_gzipName hn) (fun _ => h.entry_dir) hcan.2
      (Gzip.compress html)
    rw [he]
    refine h.step (.inr rfl) hstep (.inl (hstep.fileAt hne)) (.inr ⟨hcompressed, ?_⟩)
    rw [FileTree.fileAt_put_file _ (by simp), if_pos rfl]
  · rw [he]
    exact h

theorem removePlain (hplain : forms.plain = false) :
    Underway t out O pre n html forms (removePlain u (join (descend out pre) n)).1 := by
  have hne : O ++ pre ++ [gzipName n] ≠ O ++ pre ++ [n] := by simpa using gzipName_ne n
  rcases removePlain_cases h.opens h.linkFree hn with ⟨-, -, he⟩ | ⟨hcan, he⟩ | ⟨-, e, he⟩
  · rw [he]
    exact h
  · have hstep := FileTree.changed_drop (by simp) hcan.2
    rw [he]
    refine h.step (.inl rfl) hstep (.inr ?_) (.inl (hstep.fileAt hne))
    rw [FileTree.fileAt_drop _ (by simp), if_pos rfl, hplain]
    rfl
  · rw [he]
    exact h

/-! Whether a step is refused is decided by the tree before the first of them. -/

theorem writePlain_ok_iff : (Page.writePlain u (join (descend out pre) n) html).2 = .ok () ↔
    CanPut t (descend out pre) (O ++ pre) n :=
  (Page.writePlain_ok_iff h.opens h.linkFree hn html).trans h.canPut_iff

theorem writeCompressed_ok_iff :
    (Page.writeCompressed u (join (descend out pre) n) html).2 = .ok () ↔
      CanPut t (descend out pre) (O ++ pre) (gzipName n) :=
  (Page.writeCompressed_ok_iff h.opens h.linkFree hn html).trans h.canPut_iff

theorem removePlain_ok_iff : (Page.removePlain u (join (descend out pre) n)).2 = .ok () ↔
    CanPut t (descend out pre) (O ++ pre) n :=
  (Page.removePlain_ok_iff h.opens h.linkFree hn).trans h.canPut_iff

theorem writePlain_ok (hok : (Page.writePlain u (join (descend out pre) n) html).2 = .ok ()) :
    (Page.writePlain u (join (descend out pre) n) html).1.fileAt (O ++ pre ++ [n]) = some html := by
  rcases writePlain_cases h.opens h.linkFree hn html with ⟨-, he⟩ | ⟨-, e, he⟩
  · rw [he, FileTree.fileAt_put_file _ (by simp), if_pos rfl]
  · rw [he] at hok
    exact absurd hok (by simp)

theorem writeCompressed_ok
    (hok : (Page.writeCompressed u (join (descend out pre) n) html).2 = .ok ()) :
    let v := (Page.writeCompressed u (join (descend out pre) n) html).1
    v.fileAt (O ++ pre ++ [gzipName n]) = some (Gzip.compress html) ∧
      v.fileAt (O ++ pre ++ [n]) = u.fileAt (O ++ pre ++ [n]) := by
  have hne : O ++ pre ++ [n] ≠ O ++ pre ++ [gzipName n] := by simpa using (gzipName_ne n).symm
  rcases writeCompressed_cases h.opens h.linkFree hn html with ⟨-, he⟩ | ⟨-, e, he⟩
  · simp only [he, FileTree.fileAt_put_file _ (show O ++ pre ++ [gzipName n] ≠ [] by simp), if_true,
      if_neg hne, and_self]
  · rw [he] at hok
    exact absurd hok (by simp)

theorem removePlain_ok (hok : (Page.removePlain u (join (descend out pre) n)).2 = .ok ()) :
    let v := (Page.removePlain u (join (descend out pre) n)).1
    v.fileAt (O ++ pre ++ [n]) = none ∧
      v.fileAt (O ++ pre ++ [gzipName n]) = u.fileAt (O ++ pre ++ [gzipName n]) := by
  have hne : O ++ pre ++ [gzipName n] ≠ O ++ pre ++ [n] := by simpa using gzipName_ne n
  rcases removePlain_cases h.opens h.linkFree hn with ⟨-, hnone, he⟩ | ⟨-, he⟩ | ⟨-, e, he⟩
  · simp only [he, FileTree.fileAt, hnone, and_self]
  · simp only [he, FileTree.fileAt_drop _ (show O ++ pre ++ [n] ≠ [] by simp), if_true,
      if_neg hne, and_self]
  · rw [he] at hok
    exact absurd hok (by simp)

end Underway

/-- What comes of writing the page `n` in the directory at `pre` below the open path `out`. -/
structure Wrote (t : FileTree) (out : String) (O pre : List String) (n : String) (html : Bytes)
    (forms : Forms) (w : Written) : Prop where
  changed : Changed (fun M => O <+: M ∧ M <+: O ++ pre)
    (fun M => M = O ++ pre ++ [n] ∨ M = O ++ pre ++ [gzipName n]) t w.1
  plain : w.1.fileAt (O ++ pre ++ [n]) = t.fileAt (O ++ pre ++ [n]) ∨
    w.1.fileAt (O ++ pre ++ [n]) = if forms.plain then some html else none
  compressed : w.1.fileAt (O ++ pre ++ [gzipName n]) = t.fileAt (O ++ pre ++ [gzipName n]) ∨
    forms.compressed ∧ w.1.fileAt (O ++ pre ++ [gzipName n]) = some (Gzip.compress html)
  opens : w.2 = .ok () → w.1.Opens (descend out pre) (O ++ pre)
  plain_of_ok : w.2 = .ok () →
    w.1.fileAt (O ++ pre ++ [n]) = if forms.plain then some html else none
  compressed_of_ok : w.2 = .ok () → forms.compressed = true →
    w.1.fileAt (O ++ pre ++ [gzipName n]) = some (Gzip.compress html)

variable (h : t.Opens out O) (ht : t.WellFormed) (hl : t.LinkFree) (hpre : ∀ m ∈ pre, IsName m)
  (hn : IsName n)

include h ht hl hpre hn

theorem underway_makePlace (hplaced : (makePlace t (join (descend out pre) n)).2 = .ok ()) :
    Underway t out O pre n html forms (makePlace t (join (descend out pre) n)).1 := by
  have hmade := FileTree.made_makeDirAll h ht hl hpre
  obtain ⟨htree, hok⟩ := makePlace_eq t (descend out pre) hn
  rw [htree]
  exact ⟨hmade.grown.changed.mono (fun _ => id) fun _ hM => hM.elim, hmade.opens (hok.mp hplaced),
    hmade.grown.wellFormed ht, hmade.grown.linkFree hl, .inl (hmade.grown.fileAt _),
    .inl (hmade.grown.fileAt _)⟩

omit h ht hl hpre hn in
theorem write_of_not_placed {path : String} (hplaced : (makePlace t path).2 ≠ .ok ())
    (html : Bytes) (forms : Forms) : write t path html forms = makePlace t path := by
  unfold write
  cases forms.plain <;> cases forms.compressed <;> simp [Written.andThen_of_ne hplaced]

theorem underway_write (hplaced : (makePlace t (join (descend out pre) n)).2 = .ok ())
    (html : Bytes) (forms : Forms) :
    Underway t out O pre n html forms (write t (join (descend out pre) n) html forms).1 :=
  write_of_steps (P := fun w => Underway t out O pre n html forms w.1)
    (underway_makePlace h ht hl hpre hn hplaced)
    (fun hp _ hw => Written.andThen_induct hw fun _ => hw.writePlain hn hp)
    (fun hc _ hw => Written.andThen_induct hw fun _ => hw.writeCompressed hn hc)
    (fun hp _ hw => Written.andThen_induct hw fun _ => hw.removePlain hn hp)

/-- A page that is written leaves its forms. -/
theorem leaves_of_ok {html : Bytes} {forms : Forms}
    (hok : (write t (join (descend out pre) n) html forms).2 = .ok ()) :
    let v := (write t (join (descend out pre) n) html forms).1
    v.fileAt (O ++ pre ++ [n]) = (if forms.plain then some html else none) ∧
      (forms.compressed = true → v.fileAt (O ++ pre ++ [gzipName n]) = some (Gzip.compress html)) := by
  by_cases hplaced : (makePlace t (join (descend out pre) n)).2 = .ok ()
  · have hstart : Underway t out O pre n html forms _ :=
      underway_makePlace h ht hl hpre hn hplaced
    unfold write at hok ⊢
    cases hp : forms.plain with
    | true =>
      have hplain := hstart.writePlain hn hp
      simp only [hp, if_true, Written.andThen_of_ok hplaced] at hok ⊢
      cases hc : forms.compressed with
      | false =>
        simp only [hc, Bool.false_eq_true, if_false] at hok ⊢
        exact ⟨hstart.writePlain_ok hn hok, fun hno => absurd hno (by simp)⟩
      | true =>
        simp only [hc, if_true] at hok ⊢
        obtain ⟨hok, hok', he⟩ := Written.ok_of_andThen hok
        obtain ⟨hgz, hsame⟩ := hplain.writeCompressed_ok hn hok'
        rw [he, hsame]
        exact ⟨hstart.writePlain_ok hn hok, fun _ => hgz⟩
    | false =>
      simp only [hp, Bool.false_eq_true, if_false] at hok ⊢
      cases hc : forms.compressed with
      | false =>
        simp only [hc, Bool.false_eq_true, if_false, Written.andThen_of_ok hplaced] at hok ⊢
        exact ⟨(hstart.removePlain_ok hn hok).1, fun hno => absurd hno (by simp)⟩
      | true =>
        have hcompressed := hstart.writeCompressed hn hc
        simp only [hc, if_true, Written.andThen_of_ok hplaced] at hok ⊢
        obtain ⟨hok, hok', he⟩ := Written.ok_of_andThen hok
        obtain ⟨hnone, hsame⟩ := hcompressed.removePlain_ok hn hok'
        rw [he, hsame]
        exact ⟨hnone, fun _ => (hstart.writeCompressed_ok hn hok).1⟩
  · rw [write_of_not_placed hplaced] at hok
    exact absurd hok hplaced

/-- The spec of `write`. -/
theorem wrote (html : Bytes) (forms : Forms) :
    Wrote t out O pre n html forms (write t (join (descend out pre) n) html forms) := by
  by_cases hplaced : (makePlace t (join (descend out pre) n)).2 = .ok ()
  · have hwrite := underway_write h ht hl hpre hn hplaced html forms
    exact ⟨hwrite.changed, hwrite.plain, hwrite.compressed, fun _ => hwrite.opens,
      fun hok => (leaves_of_ok h ht hl hpre hn hok).1,
      fun hok => (leaves_of_ok h ht hl hpre hn hok).2⟩
  · have hmade := FileTree.made_makeDirAll h ht hl hpre
    have htree := (makePlace_eq t (descend out pre) hn).1
    rw [write_of_not_placed hplaced]
    refine ⟨?_, .inl ?_, .inl ?_, fun hok => absurd hok hplaced, fun hok => absurd hok hplaced,
      fun hok => absurd hok hplaced⟩
    · rw [htree]
      exact hmade.grown.changed.mono (fun _ => id) fun _ hM => hM.elim
    · rw [htree, hmade.grown.fileAt]
    · rw [htree, hmade.grown.fileAt]

/-- Once its directory is made, a page is written if there is room for its forms, and only then. -/
theorem write_ok_iff {html : Bytes} {forms : Forms}
    (hplaced : (makePlace t (join (descend out pre) n)).2 = .ok ()) :
    (write t (join (descend out pre) n) html forms).2 = .ok () ↔
      CanPut t (descend out pre) (O ++ pre) n ∧
        (forms.compressed = true → CanPut t (descend out pre) (O ++ pre) (gzipName n)) := by
  have hstart : Underway t out O pre n html forms _ :=
    underway_makePlace h ht hl hpre hn hplaced
  unfold write
  cases hp : forms.plain with
  | true =>
    have hplain := hstart.writePlain hn hp
    cases hc : forms.compressed with
    | false => simp [Written.andThen_of_ok hplaced, hstart.writePlain_ok_iff hn]
    | true =>
      simp [Written.andThen_of_ok hplaced, Written.andThen_ok_iff, hstart.writePlain_ok_iff hn,
        hplain.writeCompressed_ok_iff hn]
  | false =>
    cases hc : forms.compressed with
    | false => simp [Written.andThen_of_ok hplaced, hstart.removePlain_ok_iff hn]
    | true =>
      have hcompressed := hstart.writeCompressed hn hc
      simp [Written.andThen_of_ok hplaced, Written.andThen_ok_iff, hstart.writeCompressed_ok_iff hn,
        hcompressed.removePlain_ok_iff hn, and_comm]

/-- A page is written if nothing is in the way of its directory and of its forms. -/
theorem write_ok {html : Bytes} {forms : Forms} (hfree : ¬t.Blocked out O pre)
    (hplain : CanPut t (descend out pre) (O ++ pre) n)
    (hcompressed : forms.compressed = true → CanPut t (descend out pre) (O ++ pre) (gzipName n)) :
    (write t (join (descend out pre) n) html forms).2 = .ok () := by
  have hplaced : (makePlace t (join (descend out pre) n)).2 = .ok () := by
    by_contra hno
    rw [(makePlace_eq t (descend out pre) hn).2] at hno
    exact hfree ((FileTree.made_makeDirAll h ht hl hpre).blocked hno)
  exact (write_ok_iff h ht hl hpre hn hplaced).mpr ⟨hplain, hcompressed⟩

/-- A page that is written had room for its forms. -/
theorem canPut_of_ok {html : Bytes} {forms : Forms}
    (hok : (write t (join (descend out pre) n) html forms).2 = .ok ()) :
    CanPut t (descend out pre) (O ++ pre) n ∧
      (forms.compressed = true → CanPut t (descend out pre) (O ++ pre) (gzipName n)) := by
  have hplaced : (makePlace t (join (descend out pre) n)).2 = .ok () := by
    by_contra hno
    rw [write_of_not_placed hno] at hok
    exact hno hok
  exact (write_ok_iff h ht hl hpre hn hplaced).mp hok

end Write

/-! A target whose directory need not be open. -/

/-- What the steps of writing a page keep, writing the page keeps. -/
theorem write_induct {I : FileTree → Prop} {t : FileTree} {X n : String} (hn : IsName n)
    (hstart : I t) (hplace : ∀ u, I u → I (u.makeDirAll (Path.trimEnd X)).1)
    (hwrite : ∀ u m c, m = n ∨ m = gzipName n → I u → I (u.write (join X m) c).1)
    (hremove : ∀ u, I u → I (u.removeFile (join X n)).1) (html : Bytes) (forms : Forms) :
    I (write t (join X n) html forms).1 := by
  refine write_of_steps (P := fun w => I w.1) ?_ (fun _ w hw => Written.andThen_induct hw fun _ => ?_)
    (fun _ w hw => Written.andThen_induct hw fun _ => ?_)
    (fun _ w hw => Written.andThen_induct hw fun _ => ?_)
  · rw [(makePlace_eq t X hn).1]
    exact hplace t hstart
  · rw [writePlain_fst]
    exact hwrite w.1 n html (.inl rfl) hw
  · rw [writeCompressed_fst, gzipPath_join X hn]
    exact hwrite w.1 (gzipName n) (Gzip.compress html) (.inr rfl) hw
  · rw [removePlain_fst]
    exact hremove w.1 hw

/-- A place with the name of one of the two forms of the page `n`. -/
def IsForm (n : String) (M : List String) : Prop :=
  M.getLast? = some n ∨ M.getLast? = some (gzipName n)

/-- Whatever path it has, a page is written by making directories and by changing files of its own
names. -/
theorem write_changed {t : FileTree} (ht : t.WellFormed) (hl : t.LinkFree) {X n : String}
    (habs : Path.isAbsolute X = true) (hn : IsName n) (html : Bytes) (forms : Forms) :
    Changed (fun _ => True) (IsForm n) t (write t (join X n) html forms).1 := by
  refine write_induct (I := Changed (fun _ => True) (IsForm n) t) hn (.refl _ _ t) ?_ ?_ ?_ html forms
  · intro u hu
    have hgrown := FileTree.makeDirAll_grown u (Path.isAbsolute_trimEnd habs)
    exact hu.trans (hgrown.changed.mono (fun _ => id) fun _ hM => hM.elim)
  · rintro u m c hm hu
    have hname : IsName m := by
      rcases hm with rfl | rfl
      · exact hn
      · exact isName_gzipName hn
    have hstep := FileTree.write_changed (hu.wellFormed ht) (hu.linkFree hl) habs hname c
    refine hu.trans (hstep.mono (fun _ => False.elim) ?_)
    rintro M ⟨L, -, rfl⟩
    rcases hm with rfl | rfl
    · exact .inl List.getLast?_concat
    · exact .inr List.getLast?_concat
  · intro u hu
    have hstep := FileTree.removeFile_changed (hu.wellFormed ht) (hu.linkFree hl) habs hn
    refine hu.trans (hstep.mono (fun _ => False.elim) ?_)
    rintro M ⟨L, -, rfl⟩
    exact .inl List.getLast?_concat

end Cascade.Page
