import Cascade.Proofs.Number.Digits
import Cascade.Proofs.Text.Utf8
import Cascade.Site.Load
/-!
Where the settings of a run come from: the arguments, else the configuration file, else the defaults. A
run is configured unless there is no source, the file that counts cannot be used, the port is no number
of sixteen bits, or a run that serves would do so on a low port.
-/

namespace Cascade

open Toml (Value Entries Item)

namespace PortSetting

/-- A text that is a number of sixteen bits in decimal digits, behind a plus sign or not. -/
def Writes (text : String) (n : Nat) : Prop :=
  ∃ digits, (text.toList = digits ∨ text.toList = '+' :: digits) ∧ digits ≠ [] ∧
    (∀ c ∈ digits, Digits.isDigit c = true) ∧ n = Digits.decimalValue digits ∧ n ≤ 65535

theorem number?_eq_some {text : String} {n : Nat} :
    number? text.toList = some n ↔ Writes text n := by
  have hplus : ¬Digits.isDigit '+' = true := by decide
  have hhighest : decide (n ≤ SiteConfig.highestPort) = true ↔ n ≤ 65535 := decide_eq_true_iff
  unfold number?
  rw [Option.filter_eq_some_iff, Digits.natural?_ten_eq_some, hhighest, Writes]
  generalize text.toList = cs
  split
  · next digits =>
    constructor
    · rintro ⟨⟨hne, hdigits, hn⟩, hle⟩
      exact ⟨digits, .inr rfl, hne, hdigits, hn, hle⟩
    · rintro ⟨ds, rfl | hds, hne, hdigits, hn, hle⟩
      · exact absurd (hdigits '+' List.mem_cons_self) hplus
      · obtain rfl : digits = ds := List.tail_eq_of_cons_eq hds
        exact ⟨⟨hne, hdigits, hn⟩, hle⟩
  · next hno =>
    constructor
    · rintro ⟨⟨hne, hdigits, hn⟩, hle⟩
      exact ⟨cs, .inl rfl, hne, hdigits, hn, hle⟩
    · rintro ⟨ds, rfl | rfl, hne, hdigits, hn, hle⟩
      · exact ⟨⟨hne, hdigits, hn⟩, hle⟩
      · exact absurd rfl (hno ds)

theorem not_writes_of_word {text : String} {n : Nat} (h : text = "false" ∨ text = "true") :
    ¬Writes text n := by
  rw [← number?_eq_some]
  rcases h with rfl | rfl
  · rw [show number? "false".toList = none by decide]
    simp
  · rw [show number? "true".toList = none by decide]
    simp

theorem Writes.unique {text : String} {n m : Nat} (hn : Writes text n) (hm : Writes text m) :
    n = m := by
  rw [← number?_eq_some] at hn hm
  exact Option.some.inj (hn.symm.trans hm)

theorem Writes.le {text : String} {n : Nat} (h : Writes text n) : n ≤ 65535 := by
  obtain ⟨_, -, -, -, -, hle⟩ := h
  exact hle

/-- What a text asks for. -/
theorem ofText_eq_ok {text : String} {port : PortSetting} :
    ofText text = .ok port ↔
      (text = "false" ∧ port = .off) ∨ (text = "true" ∧ port = .configured) ∨
        ∃ n, Writes text n ∧ port = .port n := by
  unfold ofText
  by_cases hfalse : text = "false"
  · subst hfalse
    have hno : ∀ n, ¬Writes "false" n := fun n => not_writes_of_word (.inl rfl)
    simp [hno, @eq_comm _ port]
  · by_cases htrue : text = "true"
    · subst htrue
      have hno : ∀ n, ¬Writes "true" n := fun n => not_writes_of_word (.inr rfl)
      simp [hno, @eq_comm _ port]
    · simp only [hfalse, htrue, if_false, false_and, false_or]
      cases hnumber : number? text.toList with
      | none =>
        have hno : ∀ n, ¬Writes text n := fun n hn => by simp [number?_eq_some.mpr hn] at hnumber
        simp [hno]
      | some n =>
        have hn := number?_eq_some.mp hnumber
        simp only [Except.ok.injEq]
        constructor
        · rintro rfl
          exact ⟨n, hn, rfl⟩
        · rintro ⟨m, hm, rfl⟩
          rw [number?_eq_some.mpr hm] at hnumber
          rw [Option.some.inj hnumber]

end PortSetting

namespace SiteConfig

/-! What a file states. -/

/-- A setting of the builds. -/
inductive BuildSetting : String × Value → Prop
  | minify (b : Bool) : BuildSetting ("minify", .boolean b)
  | flatten (b : Bool) : BuildSetting ("flatten", .boolean b)

/-- A setting of the server. -/
inductive ServeSetting : String × Value → Prop
  | interface (text : List Char) : ServeSetting ("interface", .string text)
  | port {n : Int} (h : 0 ≤ n ∧ n < 65536) : ServeSetting ("port", .integer n)

/-- A group of settings of its own alone. -/
inductive Group : List Char × Item → Prop
  | build {name : List Char} {item : Item} {fields : List (String × Value)}
      (hname : String.ofList name = "build")
      (hfields : fields? ["minify", "flatten"] item = some fields)
      (h : ∀ f ∈ fields, BuildSetting f) : Group (name, item)
  | serve {name : List Char} {item : Item} {fields : List (String × Value)}
      (hname : String.ofList name = "serve")
      (hfields : fields? ["interface", "port"] item = some fields)
      (h : ∀ f ∈ fields, ServeSetting f) : Group (name, item)

def boolean? : Value → Option Bool
  | .boolean b => some b
  | _ => none

def string? : Value → Option String
  | .string text => some (String.ofList text)
  | _ => none

def natural? : Value → Option Nat
  | .integer n => some n.toNat
  | _ => none

/-- What fields say for a name; the last of them counts. -/
def said? {α : Type} (value? : Value → Option α) (fields : List (String × Value)) (name : String) :
    Option α :=
  fields.reverse.findSome? fun f => if f.1 = name then value? f.2 else none

/-- The fields of a group in a file, by the names it can have. -/
def fieldsOf (entries : Entries) (group : String) (known : List String) : List (String × Value) :=
  entries.flatMap fun e =>
    if String.ofList e.1 = group then (fields? known e.2).getD [] else []

/-- What a file states for a name in the settings of the builds, -/
def buildStated? (entries : Entries) (name : String) : Option Bool :=
  said? boolean? (fieldsOf entries "build" ["minify", "flatten"]) name

/-- for the interface to serve on, -/
def interfaceStated? (entries : Entries) : Option String :=
  said? string? (fieldsOf entries "serve" ["interface", "port"]) "interface"

/-- and for the port. -/
def portStated? (entries : Entries) : Option Nat :=
  said? natural? (fieldsOf entries "serve" ["interface", "port"]) "port"

/-- Settings of the builds over those before. -/
def buildOver (b : BuildOptions) (fields : List (String × Value)) : BuildOptions :=
  { minify := (said? boolean? fields "minify").getD b.minify
    flatten := (said? boolean? fields "flatten").getD b.flatten }

def serveOver (s : ServeOptions) (fields : List (String × Value)) : ServeOptions :=
  { interface := (said? string? fields "interface").getD s.interface
    port := (said? natural? fields "port").getD s.port }

/-- What a file states over a configuration. -/
def withStated (c : SiteConfig) (entries : Entries) : SiteConfig :=
  { c with
    build := buildOver c.build (fieldsOf entries "build" ["minify", "flatten"])
    serve := serveOver c.serve (fieldsOf entries "serve" ["interface", "port"]) }

theorem said?_append {α : Type} (value? : Value → Option α) (fields more : List (String × Value))
    (name : String) : said? value? (fields ++ more) name =
      (said? value? more name).or (said? value? fields name) := by
  rw [said?, List.reverse_append, List.findSome?_append]
  rfl

theorem getD_said?_append {α : Type} (value? : Value → Option α)
    (fields more : List (String × Value)) (name : String) (before : α) :
    (said? value? (fields ++ more) name).getD before =
      (said? value? more name).getD ((said? value? fields name).getD before) := by
  rw [said?_append]
  cases said? value? more name <;> rfl

theorem buildOver_append (b : BuildOptions) (fields more : List (String × Value)) :
    buildOver b (fields ++ more) = buildOver (buildOver b fields) more := by
  simp only [buildOver, getD_said?_append]

theorem serveOver_append (s : ServeOptions) (fields more : List (String × Value)) :
    serveOver s (fields ++ more) = serveOver (serveOver s fields) more := by
  simp only [serveOver, getD_said?_append]

theorem withStated_append (c : SiteConfig) (entries more : Entries) :
    withStated c (entries ++ more) = withStated (withStated c entries) more := by
  simp only [withStated, fieldsOf, List.flatMap_append, buildOver_append, serveOver_append]

theorem buildField_eq_some {b b' : BuildOptions} {f : String × Value} :
    buildField b f = some b' ↔ BuildSetting f ∧ b' = buildOver b [f] := by
  obtain ⟨name, value⟩ := f
  constructor
  · intro h
    unfold buildField at h
    split at h
    · next heq =>
      cases heq
      exact ⟨.minify _, (Option.some.inj h).symm⟩
    · next heq =>
      cases heq
      exact ⟨.flatten _, (Option.some.inj h).symm⟩
    · simp at h
  · rintro ⟨hsetting, rfl⟩
    cases hsetting <;> rfl

theorem serveField_eq_some {s s' : ServeOptions} {f : String × Value} :
    serveField s f = some s' ↔ ServeSetting f ∧ s' = serveOver s [f] := by
  obtain ⟨name, value⟩ := f
  constructor
  · intro h
    unfold serveField at h
    split at h
    · next heq =>
      cases heq
      exact ⟨.interface _, (Option.some.inj h).symm⟩
    · next heq =>
      cases heq
      split at h
      · next hrange => exact ⟨.port (by simpa using hrange), (Option.some.inj h).symm⟩
      · simp at h
    · simp at h
  · rintro ⟨hsetting, rfl⟩
    cases hsetting with
    | interface text => rfl
    | port hrange => simp [serveField, hrange, serveOver, said?, natural?, string?]

/-- Where each item is read over those before, all of them are. -/
theorem foldlM_eq_some {β γ : Type} {read : β → γ → Option β} {ok : γ → Prop}
    {lay : β → List γ → β}
    (hnil : ∀ b, lay b [] = b)
    (happend : ∀ b items more, lay b (items ++ more) = lay (lay b items) more)
    (hone : ∀ b item b', read b item = some b' ↔ ok item ∧ b' = lay b [item])
    {items : List γ} {b b' : β} :
    items.foldlM read b = some b' ↔ (∀ item ∈ items, ok item) ∧ b' = lay b items := by
  induction items generalizing b with
  | nil => simp [hnil, @eq_comm _ b]
  | cons item items ih =>
    have hsplit : lay b (item :: items) = lay (lay b [item]) items := happend b [item] items
    rw [List.foldlM_cons, List.forall_mem_cons, hsplit]
    constructor
    · intro h
      obtain ⟨b₁, hfirst, hrest⟩ := Option.bind_eq_some_iff.mp h
      obtain ⟨hok, rfl⟩ := (hone ..).mp hfirst
      obtain ⟨hall, rfl⟩ := ih.mp hrest
      exact ⟨⟨hok, hall⟩, rfl⟩
    · rintro ⟨⟨hok, hall⟩, rfl⟩
      exact Option.bind_eq_some_iff.mpr ⟨_, (hone ..).mpr ⟨hok, rfl⟩, ih.mpr ⟨hall, rfl⟩⟩

theorem buildFields_eq_some {fields : List (String × Value)} {b b' : BuildOptions} :
    fields.foldlM buildField b = some b' ↔
      (∀ f ∈ fields, BuildSetting f) ∧ b' = buildOver b fields :=
  foldlM_eq_some (fun _ => rfl) buildOver_append fun _ _ _ => buildField_eq_some

theorem serveFields_eq_some {fields : List (String × Value)} {s s' : ServeOptions} :
    fields.foldlM serveField s = some s' ↔
      (∀ f ∈ fields, ServeSetting f) ∧ s' = serveOver s fields :=
  foldlM_eq_some (fun _ => rfl) serveOver_append fun _ _ _ => serveField_eq_some

theorem section?_eq_some {c c' : SiteConfig} {e : List Char × Item} :
    c.section? e = some c' ↔ Group e ∧ c' = withStated c [e] := by
  obtain ⟨name, item⟩ := e
  constructor
  · intro h
    unfold section? at h
    split at h
    · next hname =>
      obtain ⟨fields, hfields, h⟩ := Option.bind_eq_some_iff.mp h
      obtain ⟨b, hb, h⟩ := Option.bind_eq_some_iff.mp h
      obtain ⟨hall, rfl⟩ := buildFields_eq_some.mp hb
      obtain rfl := Option.some.inj h
      refine ⟨.build hname hfields hall, ?_⟩
      simp [withStated, fieldsOf, hname, hfields]
      rfl
    · next hname =>
      obtain ⟨fields, hfields, h⟩ := Option.bind_eq_some_iff.mp h
      obtain ⟨s, hs, h⟩ := Option.bind_eq_some_iff.mp h
      obtain ⟨hall, rfl⟩ := serveFields_eq_some.mp hs
      obtain rfl := Option.some.inj h
      refine ⟨.serve hname hfields hall, ?_⟩
      simp [withStated, fieldsOf, hname, hfields]
      rfl
    · simp at h
  · rintro ⟨hgroup, rfl⟩
    cases hgroup with
    | build hname hfields hall =>
      have hb := (buildFields_eq_some (b := c.build)).mpr ⟨hall, rfl⟩
      simp [section?, hname, hfields, hb, withStated, fieldsOf]
      rfl
    | serve hname hfields hall =>
      have hs := (serveFields_eq_some (s := c.serve)).mpr ⟨hall, rfl⟩
      simp [section?, hname, hfields, hs, withStated, fieldsOf]
      rfl

/-- A text is a configuration file if it is one of groups, and it is read as what it states over the
defaults. -/
theorem ofToml_eq_some {text : List Char} {c : SiteConfig} :
    ofToml text = some c ↔
      ∃ entries, Toml.parse? text = some entries ∧ (∀ e ∈ entries, Group e) ∧
        c = withStated {} entries := by
  have hread : ∀ entries : Entries, entries.foldlM section? {} = some c ↔
      (∀ e ∈ entries, Group e) ∧ c = withStated {} entries := fun entries =>
    foldlM_eq_some (fun _ => rfl) withStated_append fun _ _ _ => section?_eq_some
  simp only [ofToml, Option.bind_eq_some_iff, hread]

/-- A file states settings: it is a text, and one of groups. -/
def States (t : FileTree) (path : String) (entries : Entries) : Prop :=
  ∃ content text, t.read path = .ok content ∧ Utf8.text? content = some text ∧
    Toml.parse? text = some entries ∧ ∀ e ∈ entries, Group e

theorem ofFile_eq_ok {t : FileTree} {path : String} {c : SiteConfig} :
    ofFile t path = .ok c ↔ ∃ entries, States t path entries ∧ c = withStated {} entries := by
  constructor
  · intro h
    unfold ofFile at h
    split at h
    · simp at h
    next content hread =>
      split at h
      · simp at h
      next text htext =>
        split at h
        · next c' htoml =>
          obtain rfl := Except.ok.inj h
          obtain ⟨entries, hparse, hall, rfl⟩ := ofToml_eq_some.mp htoml
          exact ⟨entries, ⟨content, text, hread, htext, hparse, hall⟩, rfl⟩
        · simp at h
  · rintro ⟨entries, ⟨content, text, hread, htext, hparse, hall⟩, rfl⟩
    simp [ofFile, hread, htext, ofToml_eq_some.mpr ⟨entries, hparse, hall, rfl⟩]

/-- The settings stated for a run: those of the file that counts, and none without one. -/
def Stated (t : FileTree) (a : Arguments) (src : String) (entries : Entries) : Prop :=
  (∃ path, file? t a src = some path ∧ States t path entries) ∨
    (file? t a src = none ∧ entries = [])

theorem portStated?_le {entries : Entries} (hall : ∀ e ∈ entries, Group e) {n : Nat}
    (hn : portStated? entries = some n) : n ≤ 65535 := by
  obtain ⟨f, hmem, hvalue⟩ := List.exists_of_findSome?_eq_some hn
  obtain ⟨hname, hvalue⟩ : f.1 = "port" ∧ natural? f.2 = some n := by
    simpa [Option.ite_none_right_eq_some] using hvalue
  obtain ⟨e, he, hfield⟩ := List.mem_flatMap.mp (List.mem_reverse.mp hmem)
  cases hall e he with
  | build hgroup => simp [hgroup] at hfield
  | @serve _ _ fields hgroup hfields hserve =>
    have hset : ServeSetting f := hserve f (by simpa [hgroup, hfields] using hfield)
    cases hset with
    | interface => simp at hname
    | port hrange =>
      have hto : _ = n := Option.some.inj hvalue
      omega

theorem Stated.port_le {t : FileTree} {a : Arguments} {src : String} {entries : Entries}
    (h : Stated t a src entries) : (portStated? entries).getD 3000 ≤ 65535 := by
  cases hport : portStated? entries with
  | none => decide
  | some n =>
    obtain ⟨_, -, _, _, -, -, -, hall⟩ | ⟨-, rfl⟩ := h
    · exact portStated?_le hall hport
    · simp [portStated?, fieldsOf, said?] at hport

theorem portSetting_eq_ok {a : Arguments} {port : PortSetting} :
    a.portSetting = .ok port ↔
      (a.port = none ∧ port = .off) ∨ ∃ text, a.port = some text ∧
        ((text = "false" ∧ port = .off) ∨ (text = "true" ∧ port = .configured) ∨
          ∃ n, PortSetting.Writes text n ∧ port = .port n) := by
  unfold Arguments.portSetting
  cases a.port with
  | none => simp [@eq_comm _ port]
  | some text => simp [PortSetting.ofText_eq_ok]

/-- A port is asked for as a number. -/
def AsksPort (a : Arguments) (n : Nat) : Prop :=
  ∃ text, a.port = some text ∧ PortSetting.Writes text n

theorem asksPort_iff {a : Arguments} {port : PortSetting} (h : a.portSetting = .ok port) {n : Nat} :
    AsksPort a n ↔ port = .port n := by
  obtain ⟨hnone, rfl⟩ | ⟨text, htext, ⟨rfl, rfl⟩ | ⟨rfl, rfl⟩ | ⟨m, hm, rfl⟩⟩ :=
    portSetting_eq_ok.mp h
  · simp [AsksPort, hnone]
  · simp [AsksPort, htext, PortSetting.not_writes_of_word]
  · simp [AsksPort, htext, PortSetting.not_writes_of_word]
  · constructor
    · rintro ⟨text', htext', hn⟩
      obtain rfl : text = text' := Option.some.inj (htext.symm.trans htext')
      rw [hm.unique hn]
    · rintro ⟨⟩
      exact ⟨text, htext, hm⟩

theorem ne_off_iff {a : Arguments} {port : PortSetting} (h : a.portSetting = .ok port) :
    port ≠ .off ↔ ∃ text, a.port = some text ∧ text ≠ "false" := by
  obtain ⟨hnone, rfl⟩ | ⟨text, htext, ⟨rfl, rfl⟩ | ⟨rfl, rfl⟩ | ⟨m, hm, rfl⟩⟩ :=
    portSetting_eq_ok.mp h
  · simp [hnone]
  · simp [htext]
  · simp [htext]
  · have hfalse : text ≠ "false" := fun h => PortSetting.not_writes_of_word (.inl h) hm
    simp [htext, hfalse]

theorem exists_portSetting_iff {a : Arguments} :
    (∃ port, a.portSetting = .ok port) ↔ ∀ text, a.port = some text →
      text = "false" ∨ text = "true" ∨ ∃ n, PortSetting.Writes text n := by
  simp only [portSetting_eq_ok]
  cases a.port with
  | none => simp
  | some text =>
    simp only [reduceCtorEq, false_and, false_or, Option.some.injEq, exists_eq_left', forall_eq']
    constructor
    · rintro ⟨_, ⟨h, -⟩ | ⟨h, -⟩ | ⟨n, hn, -⟩⟩
      exacts [.inl h, .inr (.inl h), .inr (.inr ⟨n, hn⟩)]
    · rintro (h | h | ⟨n, hn⟩)
      exacts [⟨_, .inl ⟨h, rfl⟩⟩, ⟨_, .inr (.inl ⟨h, rfl⟩)⟩, ⟨_, .inr (.inr ⟨n, hn, rfl⟩)⟩]

theorem bind_eq_ok {ε α β : Type} {x : Except ε α} {f : α → Except ε β} {b : β} :
    x >>= f = .ok b ↔ ∃ a, x = .ok a ∧ f a = .ok b := by
  cases x with
  | error e => simp [bind, Except.bind]
  | ok a => simp [bind, Except.bind]

/-- The arguments are laid over settings, unless the port cannot be read or is too low. -/
theorem withArguments_eq_ok {c₀ c : SiteConfig} {cwd : String} {a : Arguments} {src : String} :
    (do
      let port ← a.portSetting
      let c := c₀.withArguments cwd a src port
      if c.live && c.serve.port < lowestPort then .error (.lowPort c.serve.port) else .ok c) =
        Except.ok c ↔
      ∃ port, a.portSetting = .ok port ∧ c = c₀.withArguments cwd a src port ∧
        (c.live = true → 3000 ≤ c.serve.port) := by
  have hchecked : ∀ c' : SiteConfig,
      (if (c'.live && decide (c'.serve.port < lowestPort)) = true then
          Except.error (LoadError.lowPort c'.serve.port) else .ok c') = .ok c ↔
        c = c' ∧ (c.live = true → 3000 ≤ c.serve.port) := by
    intro c'
    have hlow : (c'.live && decide (c'.serve.port < lowestPort)) = true ↔
        ¬(c'.live = true → 3000 ≤ c'.serve.port) := by
      rw [Bool.and_eq_true, decide_eq_true_iff, Classical.not_imp, Nat.not_le, lowestPort]
    split
    · next h =>
      refine ⟨fun h => by simp at h, ?_⟩
      rintro ⟨rfl, hhigh⟩
      exact absurd hhigh (hlow.mp h)
    · next h =>
      rw [Except.ok.injEq]
      constructor
      · rintro rfl
        exact ⟨rfl, not_not.mp (mt hlow.mpr h)⟩
      · exact fun h => h.1.symm
  simp only [bind_eq_ok, hchecked]

/-- A run is configured from its parts, and not at all if it would serve on a low port. -/
theorem load_eq_ok {t : FileTree} {a : Arguments} {c : SiteConfig} :
    load t a = .ok c ↔
      ∃ src, a.source = some src ∧ ∃ entries, Stated t a src entries ∧ ∃ port,
        a.portSetting = .ok port ∧
        c = (withStated {} entries).withArguments t.cwdPath a src port ∧
        (c.live = true → 3000 ≤ c.serve.port) := by
  unfold load
  cases a.source with
  | none => simp
  | some src =>
    simp only [Option.some.injEq, exists_eq_left']
    cases hfile : file? t a src with
    | none =>
      have hnone : ∀ entries, Stated t a src entries ↔ entries = [] := by simp [Stated, hfile]
      simp only [hnone, exists_eq_left]
      exact withArguments_eq_ok
    | some path =>
      have hstated : ∀ entries, Stated t a src entries ↔ States t path entries := by
        simp [Stated, hfile]
      simp only [hstated, bind_eq_ok (x := ofFile t path), ofFile_eq_ok, withArguments_eq_ok]
      constructor
      · rintro ⟨_, ⟨entries, hstates, rfl⟩, hc⟩
        exact ⟨entries, hstates, hc⟩
      · rintro ⟨entries, hstates, hc⟩
        exact ⟨_, ⟨entries, hstates, rfl⟩, hc⟩

/-- A configuration for arguments over what a file states. -/
structure Configured (t : FileTree) (a : Arguments) (entries : Entries) (c : SiteConfig) :
    Prop where
  /-- The option counts, else the place without one. -/
  source : a.src.or a.place = some c.src
  stated : Stated t a c.src entries
  out : c.out = a.out.getD (defaultOut t.cwdPath c.src)
  minify : c.build.minify = a.minify.getD ((buildStated? entries "minify").getD true)
  flatten : c.build.flatten = a.flatten.getD ((buildStated? entries "flatten").getD false)
  interface : c.serve.interface = (interfaceStated? entries).getD "127.0.0.1"
  asked : ∀ n, AsksPort a n → c.serve.port = n
  unasked : (∀ n, ¬AsksPort a n) → c.serve.port = (portStated? entries).getD 3000
  live : c.live = true ↔ ∃ text, a.port = some text ∧ text ≠ "false"
  known : ∀ text, a.port = some text →
    text = "false" ∨ text = "true" ∨ ∃ n, PortSetting.Writes text n
  range : c.live = true → 3000 ≤ c.serve.port ∧ c.serve.port ≤ 65535

/-- Why a run is not configured. -/
inductive Refused (t : FileTree) (a : Arguments) : Prop
  | noSource (h : a.src = none ∧ a.place = none)
  | file {src path : String} (hsrc : a.source = some src) (hfile : file? t a src = some path)
      (h : ∀ entries, ¬States t path entries)
  | port {text : String} (htext : a.port = some text) (hfalse : text ≠ "false")
      (htrue : text ≠ "true") (h : ∀ n, ¬PortSetting.Writes text n)
  | lowAsked {n : Nat} (hasked : AsksPort a n) (h : n < 3000)
  | lowStated {src : String} {entries : Entries} (hsrc : a.source = some src)
      (hentries : Stated t a src entries) (hport : a.port = some "true")
      (h : (portStated? entries).getD 3000 < 3000)

theorem configured_of_portSetting {t : FileTree} {a : Arguments} {src : String} {entries : Entries}
    {port : PortSetting} (hsrc : a.source = some src) (hentries : Stated t a src entries)
    (hport : a.portSetting = .ok port)
    (hrange : ((withStated {} entries).withArguments t.cwdPath a src port).live = true →
      3000 ≤ ((withStated {} entries).withArguments t.cwdPath a src port).serve.port) :
    Configured t a entries ((withStated {} entries).withArguments t.cwdPath a src port) where
  source := hsrc
  stated := hentries
  out := rfl
  minify := rfl
  flatten := rfl
  interface := by cases port <;> rfl
  asked n hn := by
    rw [(asksPort_iff hport).mp hn]
    rfl
  unasked hno := by
    cases port with
    | port n => exact absurd ((asksPort_iff hport).mpr rfl) (hno n)
    | off | configured => rfl
  live := (decide_eq_true_iff ..).trans (ne_off_iff hport)
  known := exists_portSetting_iff.mp ⟨port, hport⟩
  range hlive := by
    refine ⟨hrange hlive, ?_⟩
    cases port with
    | port n =>
      obtain ⟨text, -, hn⟩ := (asksPort_iff hport).mpr rfl
      exact hn.le
    | off | configured => exact hentries.port_le

theorem eq_of_fields {c c' : SiteConfig} (hsrc : c.src = c'.src) (hout : c.out = c'.out)
    (hlive : c.live = c'.live) (hminify : c.build.minify = c'.build.minify)
    (hflatten : c.build.flatten = c'.build.flatten)
    (hinterface : c.serve.interface = c'.serve.interface) (hport : c.serve.port = c'.serve.port) :
    c = c' := by
  obtain ⟨_, _, _, ⟨_, _⟩, ⟨_, _⟩⟩ := c
  obtain ⟨_, _, _, ⟨_, _⟩, ⟨_, _⟩⟩ := c'
  subst hsrc hout hlive hminify hflatten hinterface hport
  rfl

/-- What is said of a configuration determines it. -/
theorem Configured.eq_withArguments {t : FileTree} {a : Arguments} {entries : Entries}
    {c : SiteConfig} (h : Configured t a entries c) {port : PortSetting}
    (hport : a.portSetting = .ok port) :
    c = (withStated {} entries).withArguments t.cwdPath a c.src port := by
  have hlive : c.live = decide (port ≠ .off) :=
    Bool.eq_iff_iff.mpr (h.live.trans ((ne_off_iff hport).symm.trans (decide_eq_true_iff ..).symm))
  have hnumber : c.serve.port =
      ((withStated {} entries).withArguments t.cwdPath a c.src port).serve.port := by
    cases port with
    | port n => exact h.asked n ((asksPort_iff hport).mpr rfl)
    | off | configured =>
      exact h.unasked fun n hn => by simp [asksPort_iff hport] at hn
  have hinterface : c.serve.interface =
      ((withStated {} entries).withArguments t.cwdPath a c.src port).serve.interface := by
    rw [h.interface]
    cases port <;> rfl
  exact eq_of_fields rfl h.out hlive h.minify h.flatten hinterface hnumber

theorem Stated.unique {t : FileTree} {a : Arguments} {src : String} {entries more : Entries}
    (h : Stated t a src entries) (hmore : Stated t a src more) : entries = more := by
  obtain ⟨path, hfile, content, text, hread, htext, hparse, -⟩ | ⟨hfile, rfl⟩ := h
  · obtain ⟨path', hfile', content', text', hread', htext', hparse', -⟩ | ⟨hfile', -⟩ := hmore
    · obtain rfl : path = path' := Option.some.inj (hfile.symm.trans hfile')
      obtain rfl : content = content' := Except.ok.inj (hread.symm.trans hread')
      obtain rfl : text = text' := Option.some.inj (htext.symm.trans htext')
      exact Option.some.inj (hparse.symm.trans hparse')
    · simp [hfile'] at hfile
  · obtain ⟨path', hfile', -⟩ | ⟨-, rfl⟩ := hmore
    · simp [hfile'] at hfile
    · rfl

theorem Configured.not_refused {t : FileTree} {a : Arguments} {entries : Entries} {c : SiteConfig}
    (h : Configured t a entries c) : ¬Refused t a := by
  have hsource : ∀ src, a.source = some src → c.src = src := fun src hsrc =>
    Option.some.inj (h.source.symm.trans hsrc)
  intro hrefused
  cases hrefused with
  | noSource hnone => simpa [hnone] using h.source
  | file hsrc hfile hno =>
    obtain rfl := hsource _ hsrc
    obtain ⟨path, hpath, hstates⟩ | ⟨hnone, -⟩ := h.stated
    · exact hno entries (Option.some.inj (hpath.symm.trans hfile) ▸ hstates)
    · simp [hnone] at hfile
  | port htext hfalse htrue hno =>
    obtain hf | ht | ⟨n, hn⟩ := h.known _ htext
    exacts [hfalse hf, htrue ht, hno n hn]
  | lowAsked hasked hlow =>
    obtain ⟨text, htext, hn⟩ := hasked
    have hfalse : text ≠ "false" := fun h => PortSetting.not_writes_of_word (.inl h) hn
    have hrange := h.range (h.live.mpr ⟨text, htext, hfalse⟩)
    rw [h.asked _ ⟨text, htext, hn⟩] at hrange
    omega
  | lowStated hsrc hentries htrue hlow =>
    obtain rfl := hsource _ hsrc
    obtain rfl := h.stated.unique hentries
    have hrange := h.range (h.live.mpr ⟨_, htrue, by decide⟩)
    have hno : ∀ n, ¬AsksPort a n := by
      rintro n ⟨text, htext, hn⟩
      obtain rfl : text = "true" := Option.some.inj (htext.symm.trans htrue)
      exact PortSetting.not_writes_of_word (.inr rfl) hn
    rw [h.unasked hno] at hrange
    omega

/-- A run that is not refused is configured. -/
theorem exists_load_of_not_refused {t : FileTree} {a : Arguments} (h : ¬Refused t a) :
    ∃ c, load t a = .ok c := by
  obtain ⟨src, hsrc⟩ : ∃ src, a.source = some src := by
    cases hsrc : a.source with
    | some src => exact ⟨src, rfl⟩
    | none => exact absurd (.noSource (by simpa [Arguments.source] using hsrc)) h
  obtain ⟨entries, hentries⟩ : ∃ entries, Stated t a src entries := by
    cases hfile : file? t a src with
    | none => exact ⟨[], .inr ⟨hfile, rfl⟩⟩
    | some path =>
      by_contra hno
      exact h (.file hsrc hfile fun entries hstates => hno ⟨entries, .inl ⟨path, hfile, hstates⟩⟩)
  obtain ⟨port, hport⟩ : ∃ port, a.portSetting = .ok port := by
    refine exists_portSetting_iff.mpr fun text htext => ?_
    by_contra hno
    push Not at hno
    exact h (.port htext hno.1 hno.2.1 hno.2.2)
  refine ⟨_, load_eq_ok.mpr ⟨src, hsrc, entries, hentries, port, hport, rfl, fun hlive => ?_⟩⟩
  by_contra hlow
  rw [Nat.not_le] at hlow
  cases port with
  | off => simp [withArguments] at hlive
  | configured =>
    obtain ⟨hnone, hoff⟩ | ⟨text, htext, ⟨-, hoff⟩ | ⟨rfl, -⟩ | ⟨n, -, hoff⟩⟩ :=
      portSetting_eq_ok.mp hport
    · simp at hoff
    · simp at hoff
    · exact h (.lowStated hsrc hentries htext hlow)
    · simp at hoff
  | port n => exact h (.lowAsked ((asksPort_iff hport).mpr rfl) hlow)

end SiteConfig
end Cascade
