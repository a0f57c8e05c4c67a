import Cascade.Proofs.Path.Relative
import Cascade.Proofs.Serve.Inside
import Cascade.Proofs.Text.Utf8
/-!
What a request target asks for. Its path ends at the first question mark or number sign. The target is
decoded first and cut then: where the target is UTF-8 when it is decoded and no such mark comes out in
its path, that is the same as cutting first, so that any way of writing the path of a file gets the file.
-/

namespace Cascade

open Path (IsName join descend)

namespace Url

/-- A character that ends the path of a target. -/
def IsMark (c : Char) : Prop := c = '?' ∨ c = '#'

instance (c : Char) : Decidable (IsMark c) := inferInstanceAs (Decidable (_ ∨ _))

theorem isMark_iff (c : Char) : IsMark c ↔ (c ≠ '?' && c ≠ '#') = false := by
  simp [IsMark]
  tauto

theorem utf8_mark {c : Char} (hc : IsMark c) :
    String.utf8EncodeChar c = [UInt8.ofNat c.toNat] ∧ UInt8.ofNat c.toNat < 0x80 ∧
      UInt8.ofNat c.toNat ≠ percent ∧ digit? (UInt8.ofNat c.toNat) = none ∧
      Char.ofNat (UInt8.ofNat c.toNat).toNat = c := by
  rcases hc with rfl | rfl <;> decide

theorem encode_append (cs ds : List Char) :
    Utf8.encode (cs ++ ds) = Utf8.encode cs ++ Utf8.encode ds := by
  simp [Utf8.encode]

/-! Percent signs. -/

/-- A byte stands for itself, unless it is a percent sign with two digits behind it. -/
theorem decodePercent_keep {b : UInt8} {rest : Bytes}
    (h : b ≠ percent ∨ ∀ c d back, rest = c :: d :: back → digit? c = none ∨ digit? d = none) :
    decodePercent (b :: rest) = b :: decodePercent rest := by
  match rest with
  | [] => rfl
  | [c] => rfl
  | c :: d :: rest =>
    rw [decodePercent]
    split
    · next hc hd =>
      rcases h with h | h
      · rw [if_neg h]
      · rcases h c d rest rfl with h | h
        · simp [h] at hc
        · simp [h] at hd
    · rfl

theorem decodePercent_escape {high low : UInt8} {x y : Nat} (hx : digit? high = some x)
    (hy : digit? low = some y) (rest : Bytes) :
    decodePercent (percent :: high :: low :: rest) =
      UInt8.ofNat (x * 16 + y) :: decodePercent rest := by
  rw [decodePercent, hx, hy]
  exact if_pos rfl

/-- What stands in front of a byte that is neither a percent sign nor a digit is decoded by itself. -/
theorem decodePercent_append {b : UInt8} (hb : b ≠ percent) (hdigit : digit? b = none)
    (front back : Bytes) :
    decodePercent (front ++ b :: back) = decodePercent front ++ b :: decodePercent back := by
  match front with
  | [] => exact decodePercent_keep (.inl hb)
  | a :: front =>
    have hrest := decodePercent_append hb hdigit front back
    -- the byte is kept in both if two digits do not follow it in front of `b`
    have hkeep : (a ≠ percent ∨ ∀ c d rest, front = c :: d :: rest →
        digit? c = none ∨ digit? d = none) →
        decodePercent (a :: front ++ b :: back) =
          decodePercent (a :: front) ++ b :: decodePercent back := by
      intro h
      rw [decodePercent_keep h, List.cons_append, decodePercent_keep, hrest, List.cons_append]
      refine h.imp_right fun h c d rest he => ?_
      match front, h, he with
      | [], _, he =>
        simp only [List.nil_append, List.cons.injEq] at he
        exact .inl (he.1 ▸ hdigit)
      | [e], _, he =>
        simp only [List.cons_append, List.nil_append, List.cons.injEq] at he
        exact .inr (he.2.1 ▸ hdigit)
      | e :: f :: front, h, he =>
        simp only [List.cons_append, List.cons.injEq] at he
        obtain ⟨rfl, rfl, -⟩ := he
        exact h e f front rfl
    by_cases ha : a = percent
    · match front, hrest, hkeep with
      | [], _, hkeep => exact hkeep (.inr (by simp))
      | [c], _, hkeep => exact hkeep (.inr (by simp))
      | c :: d :: front, _, hkeep =>
        cases hc : digit? c with
        | none => exact hkeep (.inr fun c' d' rest he => .inl (by simp_all))
        | some x =>
          cases hd : digit? d with
          | none => exact hkeep (.inr fun c' d' rest he => .inr (by simp_all))
          | some y =>
            rw [ha, List.cons_append, List.cons_append, List.cons_append,
              decodePercent_escape hc hd, decodePercent_escape hc hd,
              decodePercent_append hb hdigit front back, List.cons_append]
    · exact hkeep (.inl ha)
termination_by front.length

/-- Bytes that write other bytes, each as itself or by a percent sign and two digits. -/
inductive Encodes : Bytes → Bytes → Prop
  | nil : Encodes [] []
  | keep {b : UInt8} {written bytes : Bytes} : b ≠ percent → Encodes written bytes →
    Encodes (b :: written) (b :: bytes)
  | escape {high low : UInt8} {x y : Nat} {written bytes : Bytes} : digit? high = some x →
    digit? low = some y → Encodes written bytes →
    Encodes (percent :: high :: low :: written) (UInt8.ofNat (x * 16 + y) :: bytes)

/-- Bytes are read back however they are written. -/
theorem Encodes.decodePercent {written bytes : Bytes} (h : Encodes written bytes) :
    Url.decodePercent written = bytes := by
  induction h with
  | nil => rfl
  | keep hb _ ih => rw [decodePercent_keep (.inl hb), ih]
  | escape hx hy _ ih => rw [decodePercent_escape hx hy, ih]

/-! The path of a target. -/

/-- A text is its path and what a mark begins. -/
theorem path_split (target : String) : ∃ rest, target.toList = (path target).toList ++ rest ∧
    (rest = [] ∨ ∃ c back, IsMark c ∧ rest = c :: back) := by
  refine ⟨target.toList.dropWhile fun c => c ≠ '?' && c ≠ '#', ?_, ?_⟩
  · simp [path]
  · cases hrest : target.toList.dropWhile fun c => c ≠ '?' && c ≠ '#' with
    | nil => exact .inl rfl
    | cons c back =>
      have hhead := List.head?_dropWhile_not (fun c : Char => c ≠ '?' && c ≠ '#') target.toList
      rw [hrest] at hhead
      exact .inr ⟨c, back, (isMark_iff c).mpr (by simpa using hhead), rfl⟩

theorem path_append {q : String} (hq : ∀ c ∈ q.toList, ¬IsMark c) {rest : List Char}
    (hrest : rest = [] ∨ ∃ c back, IsMark c ∧ rest = c :: back) :
    path (String.ofList (q.toList ++ rest)) = q := by
  have hkeep : ∀ c ∈ q.toList, (c ≠ '?' && c ≠ '#') = true := by
    intro c hc
    rw [← Bool.not_eq_false, ← isMark_iff]
    exact hq c hc
  rw [path, String.toList_ofList, List.takeWhile_append_of_pos hkeep]
  rcases hrest with rfl | ⟨c, back, hc, rfl⟩
  · simp
  · rw [List.takeWhile_cons_of_neg (by simpa using (isMark_iff c).mp hc)]
    simp

/-- Where a target is UTF-8 when it is decoded, and no mark comes out in its path, the path can be decoded
by itself. -/
theorem path_decode {target q d : String} (hwhole : (decodePercent (utf8 target)).text? = some d)
    (hq : (decodePercent (utf8 (path target))).text? = some q)
    (hmark : ∀ c ∈ q.toList, ¬IsMark c) : path (decode target) = q := by
  obtain ⟨rest, hsplit, hrest⟩ := path_split target
  have hbytes : utf8 target = utf8 (path target) ++ Utf8.encode rest := by
    rw [utf8, hsplit, encode_append]
    rfl
  rw [hbytes] at hwhole
  rw [decode, hbytes, hwhole, Option.getD_some]
  rw [Bytes.text?_eq_some] at hwhole hq
  -- what is decoded is the path, and behind it the mark with what is decoded from the rest
  obtain ⟨rest', hd, hrest'⟩ : ∃ rest', d.toList = q.toList ++ rest' ∧
      (rest' = [] ∨ ∃ c back, IsMark c ∧ rest' = c :: back) := by
    rcases hrest with rfl | ⟨c, back, hc, rfl⟩
    · refine ⟨[], ?_, .inl rfl⟩
      have hsame : d.toList.map some = q.toList.map some := by
        rw [← hwhole, ← hq]
        simp [Utf8.encode]
      simpa using List.map_injective_iff.mpr (fun _ _ => Option.some.inj) hsame
    · obtain ⟨hutf, hascii, hpercent, hdigit, hchar⟩ := utf8_mark hc
      rw [Utf8.encode, List.flatMap_cons, hutf, List.singleton_append,
        decodePercent_append hpercent hdigit, Utf8.scan_append hascii, Utf8.scan_ascii hascii, hq,
        hchar] at hwhole
      obtain ⟨front, rest', hd, hfront, hback⟩ := List.map_eq_append_iff.mp hwhole.symm
      obtain ⟨c', back', rfl, hc', -⟩ := List.map_eq_cons_iff.mp hback
      obtain rfl := Option.some.inj hc'
      obtain rfl := List.map_injective_iff.mpr (fun _ _ => Option.some.inj) hfront
      exact ⟨c' :: back', hd, .inr ⟨c', back', hc, rfl⟩⟩
  rw [← String.ofList_toList (s := d), hd]
  exact path_append hmark hrest'

end Url

namespace Response

/-- The response with a file that is there. -/
theorem ofTarget_of_isFile {t : FileTree} {x : Target} (h : t.isFile x.file = true) (status : Nat) :
    ∃ body, t.read x.file = .ok body ∧ ofTarget t status x = some
      { status := status
        contentType := Cascade.contentType (Path.extension? x.path)
        compressed := x.compressed
        body := body } := by
  rw [FileTree.isFile_eq_read] at h
  unfold ofTarget
  cases hread : t.read x.file with
  | error e => simp [hread, Except.toOption] at h
  | ok body => exact ⟨body, rfl, rfl⟩

end Response

namespace Target

/-- A file is found by the path that leads to it. -/
theorem resolve_of_isFile {t : FileTree} {root : String} {ns : List String} (hne : ns ≠ [])
    (hns : ∀ n ∈ ns, IsName n) (hfile : t.isFile (descend root ns) = true) :
    resolve t root ("/" ++ Path.ofSegments ns) = some ⟨descend root ns, false⟩ := by
  have hfirst : ∃ others,
      candidates root ("/" ++ Path.ofSegments ns) = descend root ns :: others := by
    rcases List.eq_nil_or_concat' ns with rfl | ⟨front, n, rfl⟩
    · exact absurd rfl hne
    · exact ⟨_, candidates_below root hns⟩
  obtain ⟨others, hothers⟩ := hfirst
  rw [resolve, hothers, List.findSome?_cons, at?, if_pos hfile]

end Target

namespace Response

open Url (IsMark Encodes decodePercent)

/-- A request whose target is UTF-8 when it is decoded, and in whose path no question mark or number sign
comes out, is answered with the file for its decoded path, or with what the site has for what is not
found. A file is got by every way of writing its path. -/
theorem ofRequest_of_decoded {t : FileTree} {root target q : String}
    (hwhole : (decodePercent (utf8 target)).text? ≠ none)
    (hq : (decodePercent (utf8 (Url.path target))).text? = some q)
    (hmark : ∀ c ∈ q.toList, ¬IsMark c) :
    (∀ x, Target.resolve t root q = some x → ∃ body, t.read x.file = .ok body ∧
      ofRequest t root target = some
        { status := 200
          contentType := Cascade.contentType (Path.extension? x.path)
          compressed := x.compressed
          body := body }) ∧
    (Target.resolve t root q = none → ∃ r, ofRequest t root target = some r ∧ r.status = 404 ∧
      (∀ x, Target.notFound? t root = some x → t.read x.file = .ok r.body ∧
        r.contentType = Cascade.contentType (Path.extension? x.path) ∧
        r.compressed = x.compressed) ∧
      (Target.notFound? t root = none → r = notFound)) ∧
    ∀ ns c, ns ≠ [] → (∀ n ∈ ns, IsName n) → t.read (descend root ns) = .ok c →
      Encodes (utf8 (Url.path target)) (utf8 ("/" ++ Path.ofSegments ns)) →
      ofRequest t root target = some
        { status := 200
          contentType := Cascade.contentType (Path.extension? (descend root ns))
          compressed := false
          body := c } := by
  obtain ⟨d, hd⟩ := Option.ne_none_iff_exists'.mp hwhole
  have hpath := Url.path_decode hd hq hmark
  have hfound : ∀ x, Target.resolve t root q = some x → ∃ body, t.read x.file = .ok body ∧
      ofRequest t root target = some
        { status := 200
          contentType := Cascade.contentType (Path.extension? x.path)
          compressed := x.compressed
          body := body } := by
    intro x hx
    have hfile := (Target.isInside_of_found (Or.inl hx)).2
    unfold ofRequest
    rw [hpath, hx]
    exact ofTarget_of_isFile hfile 200
  refine ⟨hfound, fun hnone => ?_, fun ns c hne hns hread hwritten => ?_⟩
  · unfold ofRequest
    rw [hpath, hnone]
    cases hmissing : Target.notFound? t root with
    | none => exact ⟨notFound, rfl, rfl, by simp, fun _ => rfl⟩
    | some x =>
      have hor : Target.resolve t root q = some x ∨ Target.notFound? t root = some x :=
        .inr hmissing
      have hfile := (Target.isInside_of_found hor).2
      obtain ⟨body, hbody, hresponse⟩ := ofTarget_of_isFile hfile 404
      refine ⟨_, hresponse, rfl, fun y hy => ?_, by simp⟩
      obtain rfl := Option.some.inj hy
      exact ⟨hbody, rfl, rfl⟩
  · have hsame : q = "/" ++ Path.ofSegments ns := by
      rw [hwritten.decodePercent, Bytes.text?_utf8] at hq
      exact (Option.some.inj hq).symm
    have hfile : t.isFile (descend root ns) = true := by
      rw [FileTree.isFile_eq_read, hread]
      rfl
    have hresolve := Target.resolve_of_isFile hne hns hfile
    rw [← hsame] at hresolve
    obtain ⟨body, hbody, hresponse⟩ := hfound _ hresolve
    have hc : body = c := by
      have hsame : Except.ok body = Except.ok c := hbody.symm.trans hread
      exact Except.ok.inj hsame
    rw [hresponse, hc]

/-- A site in `www` with an index page and two files, one with a space and one with a question mark in
its name. -/
def marked : FileTree :=
  { cwd := []
    entries :=
      [(["www"], .directory), (["www", "index.html"], .file [1]), (["www", "a b"], .file [2]),
        (["www", "a?b"], .file [3])] }

theorem marked_wellFormed : marked.WellFormed :=
  FileTree.wellFormed_of_entries (by decide) (by decide) (by decide)

theorem marked_bare : marked.Bare ["www"] :=
  FileTree.LinkFree.bare (FileTree.linkFree_of_entries (by decide)) ["www"]

theorem marked_leads : marked.Leads "/www" ["www"] :=
  (FileTree.opens_of_location marked_wellFormed (by decide) (by decide) (by decide)).leads

/-- A file is got by the encoding of its path, and what stands behind a mark does not matter. -/
theorem ofRequest_marked : ofRequest marked "/www" "/a%20b?v=%3F" = some
    { status := 200
      contentType := Cascade.contentType (Path.extension? "/www/a b")
      compressed := false
      body := [2] } := by
  have hpath : Url.path "/a%20b?v=%3F" = "/a%20b" := by decide
  have hwritten : Encodes (utf8 "/a%20b") (utf8 "/a b") := by
    rw [show utf8 "/a%20b" = [0x2f, 0x61, 0x25, 0x32, 0x30, 0x62] by decide,
      show utf8 "/a b" = [0x2f, 0x61, 0x20, 0x62] by decide]
    refine .keep (by decide) (.keep (by decide) ?_)
    exact .escape (x := 2) (y := 0) (by decide) (by decide) (.keep (by decide) .nil)
  have hread : marked.read (descend "/www" ["a b"]) = .ok [2] :=
    (marked_leads.read_iff marked_bare marked_wellFormed (by decide) (by decide)).mpr (by decide)
  have hwhole : decodePercent (utf8 "/a%20b?v=%3F") = utf8 "/a b?v=?" := by decide
  refine (ofRequest_of_decoded (q := "/a b") ?_ ?_ ?_).2.2 ["a b"] [2] (by decide) (by decide) hread ?_
  · rw [hwhole, Bytes.text?_utf8]
    simp
  · rw [hpath, hwritten.decodePercent, Bytes.text?_utf8]
  · rw [show "/a b".toList = ['/', 'a', ' ', 'b'] by decide]
    simp [IsMark]
  · rw [hpath]
    exact hwritten

theorem marked_read {n : String} {c : Bytes} (hn : IsName n) (hfile : marked.fileAt ["www", n] = some c)
    (hfits : FileTree.Fits (descend "/www" [n]) [n]) : marked.read (descend "/www" [n]) = .ok c :=
  (marked_leads.read_iff marked_bare marked_wellFormed (by simpa using hn) (by simp)).mpr
    ⟨hfits, hfile⟩

theorem marked_at?_eq_none {ns : List String} {n : String} (hns : ∀ m ∈ ns, IsName m) (hn : IsName n)
    (hplain : marked.fileAt (["www"] ++ (ns ++ [n])) = none)
    (hgzip : marked.fileAt (["www"] ++ (ns ++ [Page.gzipName n])) = none) :
    Target.at? marked (join (descend "/www" ns) n) = none :=
  Target.at?_eq_none marked_leads marked_bare marked_wellFormed hns hn hplain hgzip

theorem decodePercent_marked : decodePercent (utf8 "/a%3Fb") = utf8 "/a?b" := by decide

theorem text?_broken : (decodePercent (utf8 "/%FF")).text? = none := by
  rw [show decodePercent (utf8 "/%FF") = [0x2f, 0xff] by decide]
  simp [Bytes.text?, Utf8.text?, Utf8.scan, Utf8.next]

/-- The path is cut at the mark that comes out of it, and there is no file `a`. -/
theorem ofRequest_cut : ofRequest marked "/www" "/a%3Fb" = some notFound := by
  have hcut : Url.path (Url.decode "/a%3Fb") = "/a" := by
    rw [Url.decode, decodePercent_marked, Bytes.text?_utf8]
    decide
  have hcandidates : Target.candidates "/www" "/a" = [join (descend "/www" []) "a",
      join (descend "/www" ["a"]) "index.html", join (descend "/www" []) "a.html"] := by
    decide
  have hresolve : Target.resolve marked "/www" "/a" = none := by
    rw [Target.resolve, hcandidates]
    simp only [List.findSome?_cons, List.findSome?_nil]
    rw [marked_at?_eq_none (by decide) (by decide) (by decide) (by decide),
      marked_at?_eq_none (by decide) (by decide) (by decide) (by decide),
      marked_at?_eq_none (by decide) (by decide) (by decide) (by decide)]
  have hmissing : Target.notFound? marked "/www" = none := by
    rw [Target.notFound?, show join (join "/www" "404") "index.html" =
        join (descend "/www" ["404"]) "index.html" by rfl,
      show join "/www" "404.html" = join (descend "/www" []) "404.html" by rfl]
    simp only [List.findSome?_cons, List.findSome?_nil]
    rw [marked_at?_eq_none (by decide) (by decide) (by decide) (by decide),
      marked_at?_eq_none (by decide) (by decide) (by decide) (by decide)]
  unfold ofRequest
  rw [hcut, hresolve, hmissing]

/-- What is not UTF-8 counts as the empty text, which asks for the page of the root. -/
theorem ofRequest_broken : ofRequest marked "/www" "/%FF" = some
    { status := 200
      contentType := Cascade.contentType (some "html")
      compressed := false
      body := [1] } := by
  have hempty : Url.path (Url.decode "/%FF") = "" := by
    rw [Url.decode, text?_broken]
    decide
  have hcandidates : Target.candidates "/www" "" = [join (descend "/www" []) "index.html"] := by
    decide
  have hindex : marked.read (descend "/www" ["index.html"]) = .ok [1] :=
    marked_read (by decide) (by decide) (by decide)
  have hresolve : Target.resolve marked "/www" "" = some ⟨descend "/www" ["index.html"], false⟩ := by
    rw [Target.resolve, hcandidates, List.findSome?_cons,
      Target.at?_plain marked_leads marked_bare marked_wellFormed (by decide) (by decide)
        (by decide) (c := [1]) (by decide)]
    rfl
  have hextension : Path.extension? (descend "/www" ["index.html"]) = some "html" := by decide
  unfold ofRequest ofTarget
  rw [hempty, hresolve]
  simp only [Target.file, Bool.false_eq_true, if_false, hindex, hextension]

/-- A mark that is encoded in a path ends it all the same, so that the file with this name is not found;
and a path that is not UTF-8 is answered with the page of the root. -/
theorem ofRequest_marked_differs :
    (decodePercent (utf8 (Url.path "/a%3Fb"))).text? = some "/a?b" ∧
      Target.resolve marked "/www" "/a?b" = some ⟨"/www/a?b", false⟩ ∧
      marked.read "/www/a?b" = .ok [3] ∧
      ofRequest marked "/www" "/a%3Fb" = some notFound ∧
    (decodePercent (utf8 (Url.path "/%FF"))).text? = none ∧
      ofRequest marked "/www" "/%FF" = some
        { status := 200
          contentType := Cascade.contentType (some "html")
          compressed := false
          body := [1] } := by
  have hread : marked.read (descend "/www" ["a?b"]) = .ok [3] :=
    marked_read (by decide) (by decide) (by decide)
  have hfile : marked.isFile (descend "/www" ["a?b"]) = true := by
    rw [FileTree.isFile_eq_read, hread]
    rfl
  have hmarked : Url.path "/a%3Fb" = "/a%3Fb" := by decide
  have hbroken : Url.path "/%FF" = "/%FF" := by decide
  have hplace : descend "/www" ["a?b"] = "/www/a?b" := by decide
  have hresolve := Target.resolve_of_isFile (by simp) (by decide) hfile
  rw [hplace, show "/" ++ Path.ofSegments ["a?b"] = "/a?b" by decide] at hresolve
  refine ⟨?_, hresolve, hplace ▸ hread, ofRequest_cut, ?_, ofRequest_broken⟩
  · rw [hmarked, decodePercent_marked, Bytes.text?_utf8]
  · rw [hbroken, text?_broken]

end Response

end Cascade
