import Cascade.Proofs.Watch.Debounce
import Cascade.Proofs.Watch.Registered
import Cascade.Proofs.Watch.Removals
/-!
Events of several changes. Each change passes the gate on its own, at the instant when those in front of
it have been handled. So an event is handled as a whole only if that takes long enough, or if all of it is
dropped; otherwise parts of it are lost, and a path that was renamed is gone and does not come again.
-/

namespace Cascade

open Debouncer (marked)
open Path (join descend)

namespace Live

/-- Which changes of a row pass the gate. -/
def admitted (w : Watcher) (l : Live) (t : FileTree) : List (Nat × Change) → List Bool
  | [] => []
  | (now, change) :: rest =>
    (l.session.gate.accept now).1 ::
      (l.apply w t now change).1.admitted w (l.apply w t now change).2.tree rest

section Admitted

variable {w : Watcher} {l : Live} {t : FileTree} {now : Nat} {change : Change}

theorem gate_apply : (l.apply w t now change).1.session.gate = (l.session.gate.accept now).2 := by
  rw [(apply_session w l t now change).1]
  rfl

/-- A change that is dropped leaves everything as it is. -/
theorem apply_of_early (h : l.session.gate.Early now) (change : Change) :
    l.apply w t now change = (l, { tree := t }) := by
  have hhandle : l.session.handle t now change = (l.session, { tree := t }) := by
    rw [Session.handle, Debouncer.accept_of_early h]
    rfl
  unfold apply
  rw [hhandle]
  cases change <;> rfl

/-- What passes is told by the instants alone. -/
theorem admitted_eq_run (w : Watcher) (l : Live) (t : FileTree) (changes : List (Nat × Change)) :
    l.admitted w t changes = l.session.gate.run (changes.map Prod.fst) := by
  induction changes generalizing l t with
  | nil => rfl
  | cons c changes ih =>
    obtain ⟨now, change⟩ := c
    rw [admitted, ih, gate_apply]
    rfl

/-- What is done for a row of changes is done for those of it that pass. -/
theorem applyAll_marked (w : Watcher) (l : Live) (t : FileTree) (changes : List (Nat × Change)) :
    (l.applyAll w t (marked (l.admitted w t changes) changes)).1 = (l.applyAll w t changes).1 ∧
      (l.applyAll w t (marked (l.admitted w t changes) changes)).2 =
        marked (l.admitted w t changes) (l.applyAll w t changes).2 := by
  induction changes generalizing l t with
  | nil => exact ⟨rfl, rfl⟩
  | cons c changes ih =>
    obtain ⟨now, change⟩ := c
    have htail := ih (l.apply w t now change).1 (l.apply w t now change).2.tree
    by_cases h : l.session.gate.Early now
    · rw [apply_of_early h] at htail
      simpa [admitted, applyAll, Debouncer.accept_of_early h, apply_of_early h] using htail
    · simpa [admitted, applyAll, Debouncer.accept_of_not_early h] using htail

end Admitted

/-- The changes of a path that was renamed. -/
theorem ofEvent_renamed {t : FileTree} {old new : String} (hold : isTemporary old = false)
    (hnew : isTemporary new = false) (hgone : t.pathExists old = false)
    (hthere : t.pathExists new = true) :
    Change.ofEvent t .renamed [old, new] = [.removal old, Change.appeared t new] := by
  simp [Change.ofEvent, hold, hnew, hgone, hthere]

/-- An event is handled as a whole exactly if there is no threshold, or its changes keep their distance
from one another and from what passed before, or all of them come too early. What is dropped of it is as
if it had not been told. So a renamed path is taken away, and its new name does not come, exactly if the
first passes and is handled in less than the threshold. -/
theorem event_whole_iff (w : Watcher) (l : Live) (t : FileTree) (event : Event) (paths : List String)
    (times : List Nat) (h : times.length = (Change.ofEvent t event paths).length) :
    let gate := l.session.gate
    let changes := times.zip (Change.ofEvent t event paths)
    let marks := l.admitted w t changes
    ((∀ b ∈ marks, b = true) ∨ (∀ b ∈ marks, b = false) ↔
      gate.threshold = 0 ∨ gate.Spaced times ∨ ∀ now ∈ times, gate.Early now) ∧
    ((l.applyAll w t (marked marks changes)).1 = (l.applyAll w t changes).1 ∧
      (l.applyAll w t (marked marks changes)).2 = marked marks (l.applyAll w t changes).2) ∧
    ∀ old new before after, isTemporary old = false → isTemporary new = false →
      t.pathExists old = false → t.pathExists new = true →
      Change.ofEvent t .renamed [old, new] = [.removal old, Change.appeared t new] ∧
      (l.admitted w t [(before, .removal old), (after, Change.appeared t new)] = [true, false] ↔
        ¬gate.Early before ∧ gate.threshold ≠ 0 ∧ after < before + gate.threshold) := by
  intro gate changes marks
  have hmarks : marks = gate.run times := by
    rw [show marks = gate.run (changes.map Prod.fst) from admitted_eq_run w l t changes,
      List.map_fst_zip h.le]
  refine ⟨?_, applyAll_marked w l t changes, fun old new before after hold hnew hgone hthere => ?_⟩
  · rw [hmarks, Debouncer.run_eq_true_iff, Debouncer.run_eq_false_iff, or_assoc]
  · refine ⟨ofEvent_renamed hold hnew hgone hthere, ?_⟩
    rw [admitted_eq_run]
    by_cases hearly : gate.Early before
    · simp [Debouncer.run, gate, Debouncer.accept_of_early hearly, hearly]
    · have hsecond : ((gate.accept before).2.accept after).1 = false ↔
          gate.threshold ≠ 0 ∧ after < before + gate.threshold := by
        rw [Debouncer.accept_fst_eq_false, Debouncer.accept_of_not_early hearly]
        simp [Debouncer.Early]
      simpa [Debouncer.run, gate, Debouncer.accept_of_not_early hearly, hearly] using hsecond

/-- A source with the directory `b`, which was `a` when the output was made. -/
def moved : FileTree :=
  { cwd := []
    entries := [(["src"], .directory), (["src", "b"], .directory), (["dist"], .directory),
      (["dist", "a"], .directory), (["dist", "a", "index.html"], .file [])] }

def movedLive : Live :=
  { session := { site := { src := "/src", out := "/dist" }, gate := { threshold := Session.quietTime } }
    watched := ["/src", "/src/a"] }

theorem moved_wellFormed : moved.WellFormed ∧ moved.LinkFree :=
  ⟨FileTree.wellFormed_of_entries (by decide) (by decide) (by decide),
    FileTree.linkFree_of_entries (by decide)⟩

theorem exists_moved :
    moved.pathExists "/src/a" = false ∧ moved.pathExists "/src/b" = true ∧ moved.isDir "/src/b" = true := by
  obtain ⟨ht, hl⟩ := moved_wellFormed
  have hsrc := FileTree.opens_of_location ht (L := ["src"]) rfl (by decide) (by decide)
  have hb := FileTree.opens_of_location ht (L := ["src", "b"]) rfl (by decide) (by decide)
  refine ⟨?_, hb.pathExists, hb.isDir⟩
  have hplace := hsrc.resolve_join hl (n := "a") (by decide) true
  rw [show FileTree.refusal? (join (descend "/" ["src"]) "a") "a" = none by decide] at hplace
  rw [FileTree.pathExists, FileTree.lookup, show "/src/a" = join (descend "/" ["src"]) "a" by decide,
    hplace]
  decide

theorem ofEvent_moved : Change.ofEvent moved .renamed ["/src/a", "/src/b"] =
    [.removal "/src/a", .directory "/src/b"] := by
  obtain ⟨hgone, hthere, hdir⟩ := exists_moved
  rw [ofEvent_renamed (by decide) (by decide) hgone hthere, Change.appeared, if_pos hdir]

/-- The output of `a` is taken away, and nothing stands at the place of that of `b`. -/
theorem react_moved : (movedLive.session.react moved (.removal "/src/a")).log = some "a removed" ∧
    FileTree.entry? (movedLive.session.react moved (.removal "/src/a")).tree ["dist", "a"] = none ∧
    FileTree.entry? (movedLive.session.react moved (.removal "/src/a")).tree ["dist", "b"] = none := by
  obtain ⟨ht, hl⟩ := moved_wellFormed
  have ha := FileTree.opens_of_location ht (L := ["dist", "a"]) rfl (by decide) (by decide)
  have hdir : moved.isDir (join "/dist" "a") = true := ha.isDir
  have hremoved := ha.removeDirAll_join (X := "/dist") (n := "a") hl (by decide)
    (FileTree.opens_of_location (ht.clear ["dist", "a"]) rfl (by decide) (by decide))
  have hpruned := FileTree.Pruned.drop_clear moved (K := ["dist", "a"]) (by simp)
  have hfirst := FileTree.removeFile_shrunk (hpruned.linkFree hl) (hpruned.wellFormed ht)
    (show Path.isAbsolute (join "/dist" "a" ++ ".html") = true by decide)
  have hsecond := FileTree.removeFile_shrunk (hfirst.linkFree (hpruned.linkFree hl))
    (hfirst.wellFormed (hpruned.wellFormed ht))
    (show Path.isAbsolute (join "/dist" "a" ++ ".html" ++ ".gz") = true by decide)
  have htree : (movedLive.session.react moved (.removal "/src/a")).tree =
      (Session.removeOutput moved (join "/dist" "a")).1 := by
    rw [show "/src/a" = descend movedLive.session.site.src ["a"] by decide]
    exact (Session.react_of_removal movedLive.session (by decide) (by decide) (by decide) (by decide)
      moved).1
  -- The directory goes in the first step, and the other two make nothing.
  have hnone : ∀ M, FileTree.entry? ((moved.clear ["dist", "a"]).drop ["dist", "a"]) M = none →
      FileTree.entry? (movedLive.session.react moved (.removal "/src/a")).tree M = none := by
    intro M hM
    have hM₁ := (hfirst.entry M).elim (·.trans hM) And.right
    rw [htree, Session.removeOutput_fst, if_pos hdir, hremoved]
    exact (hsecond.entry M).elim (·.trans hM₁) And.right
  exact ⟨by decide, hnone _ (by decide), hnone _ (by decide)⟩

/-- A renamed directory is handled as a whole if there is time enough between its two changes, and three
microseconds are not. -/
theorem event_whole_iff_moved :
    (let marks := movedLive.admitted Watcher.standard moved
      ([0, Session.quietTime].zip (Change.ofEvent moved .renamed ["/src/a", "/src/b"]))
    (∀ b ∈ marks, b = true) ∨ ∀ b ∈ marks, b = false) ∧
    movedLive.admitted Watcher.standard moved
      [(0, .removal "/src/a"), (3, Change.appeared moved "/src/b")] = [true, false] := by
  obtain ⟨hgone, hthere, -⟩ := exists_moved
  obtain ⟨hwhole, -, hrenamed⟩ := event_whole_iff Watcher.standard movedLive moved .renamed
    ["/src/a", "/src/b"] [0, Session.quietTime] (by rw [ofEvent_moved]; rfl)
  have hspaced : movedLive.session.gate.Spaced [0, Session.quietTime] := by
    simp [Debouncer.Spaced, movedLive]
  refine ⟨hwhole.mpr (.inr (.inl hspaced)), ?_⟩
  exact (hrenamed _ _ 0 3 (by decide) (by decide) hgone hthere).2.mpr
    ⟨fun hearly => by simp [Debouncer.Early, movedLive] at hearly, by decide, by decide⟩

/-- A directory is renamed, and the two changes of that are handled three microseconds apart. The output of
the old one is taken away, and the new one is never built. -/
theorem renamed_directory_lost :
    Change.ofEvent moved .renamed ["/src/a", "/src/b"] = [.removal "/src/a", .directory "/src/b"] ∧
    [0, 3].Pairwise (· ≤ ·) ∧
    movedLive.admitted Watcher.standard moved [(0, .removal "/src/a"), (3, .directory "/src/b")] =
      [true, false] ∧
    ∃ o o', (movedLive.applyAll Watcher.standard moved
        [(0, .removal "/src/a"), (3, .directory "/src/b")]).2 = [o, o'] ∧
      o.log = some "a removed" ∧ FileTree.entry? o.tree ["dist", "a"] = none ∧
      o'.log = none ∧ o'.tree = o.tree ∧ FileTree.entry? o'.tree ["dist", "b"] = none := by
  refine ⟨ofEvent_moved, by decide, ?_, ?_⟩
  · rw [admitted_eq_run]
    decide
  · obtain ⟨hlog, ha, hb⟩ := react_moved
    obtain ⟨l', hgate, hfirst⟩ : ∃ l', l'.session.gate = { threshold := Session.quietTime, last := some 0 } ∧
        movedLive.apply Watcher.standard moved 0 (.removal "/src/a") =
          (l', { toOutcome := movedLive.session.react moved (.removal "/src/a") }) := ⟨_, rfl, rfl⟩
    have hearly : l'.session.gate.Early 3 := by
      rw [hgate]
      exact ⟨by decide, 0, rfl, by decide⟩
    simp only [applyAll, hfirst, apply_of_early hearly]
    exact ⟨_, _, rfl, hlog, ha, rfl, rfl, hb⟩

end Live

end Cascade
