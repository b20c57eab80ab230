import TensorFiles.Proofs.Alignment
import TensorFiles.Proofs.Result
import TensorFiles.Settings
/-!
This module contains where the settings of the codec come from. Without a configuration file, each one
that no flag gives is that of the environment, if it can be used. A configuration file takes the place
of the environment, also for the settings that it leaves out.
-/

namespace TensorFiles

namespace CodecConfig

/--
The alignment that the text of a variable gives.
-/
def usableAlignment? (text? : Option String) : Option Nat :=
  (readVariable? wordBound text?).filter (fun n => ∃ k < 32, n = 2 ^ k)

/--
The version that the text of a variable gives.
-/
def usableVersion? (text? : Option String) : Option Nat :=
  (readVariable? halfWordBound text?).filter (fun n => n = 2 ∨ n = 3)

theorem isPowerOfTwo_and_lt_iff {n : Nat}
    : isPowerOfTwo n = true ∧ n < halfWordBound ↔ ∃ k < 32, n = 2 ^ k := by
  rw [isPowerOfTwo_iff]
  constructor
  . rintro ⟨⟨k, rfl⟩, hsmall⟩
    refine ⟨k, ?_, rfl⟩
    apply (Nat.pow_lt_pow_iff_right (Nat.lt_succ_self 1)).1
    exact hsmall
  . rintro ⟨k, hk, rfl⟩
    refine ⟨⟨k, rfl⟩, ?_⟩
    exact (Nat.pow_lt_pow_iff_right (Nat.lt_succ_self 1)).2 hk

theorem validate_iff {c : CodecConfig}
    : c.validate = .ok () ↔ (∃ k < 32, c.alignment = 2 ^ k) ∧ (c.version = 2 ∨ c.version = 3) := by
  have hversion : Gguf.minVersion ≤ c.version ∧ c.version ≤ Gguf.maxVersion
      ↔ c.version = 2 ∨ c.version = 3 := by
    unfold Gguf.minVersion Gguf.maxVersion
    omega
  rw [validate_eq_ok_iff, ← and_assoc, isPowerOfTwo_and_lt_iff, hversion]

theorem orElse_of_valid (c : CodecConfig) {candidate : CodecConfig}
    (h : candidate.validate = .ok ()) : c.orElse candidate = candidate := by
  unfold orElse
  rw [h]

theorem orElse_of_not_valid (c : CodecConfig) {candidate : CodecConfig}
    (h : ¬ candidate.validate = .ok ()) : c.orElse candidate = c := by
  unfold orElse
  split
  . next hvalid => exact absurd hvalid h
  . rfl

/--
A setting is changed if its new value is one that leaves the settings valid.
-/
theorem orElse_set (set : Nat → CodecConfig) {p : Nat → Prop} [DecidablePred p]
    (hvalid : ∀ n, (set n).validate = .ok () ↔ p n) (current n : Nat)
    : (set current).orElse (set n) = set (((some n).filter (fun n => p n)).getD current) := by
  by_cases hn : p n
  . rw [orElse_of_valid _ ((hvalid n).2 hn), Option.filter_some_pos (by simpa using hn)]
    rfl
  . have hnot : ¬ (set n).validate = .ok () := fun h => hn ((hvalid n).1 h)
    rw [orElse_of_not_valid _ hnot, Option.filter_some_neg (by simpa using hn)]
    rfl

section

variable {c : CodecConfig} (n : Nat)

theorem orElse_alignment (hversion : c.version = 2 ∨ c.version = 3)
    : c.orElse { c with alignment := n }
        = { c with
            alignment := ((some n).filter (fun n => ∃ k < 32, n = 2 ^ k)).getD c.alignment } := by
  apply orElse_set (fun n => { c with alignment := n })
  intro n
  rw [validate_iff, and_iff_left hversion]

theorem orElse_version (halign : ∃ k < 32, c.alignment = 2 ^ k)
    : c.orElse { c with version := n }
        = { c with version := ((some n).filter (fun n => n = 2 ∨ n = 3)).getD c.version } := by
  apply orElse_set (fun n => { c with version := n })
  intro n
  rw [validate_iff, and_iff_right halign]

end

theorem usableAlignment?_getD (text? : Option String)
    : ∃ k < 32, (usableAlignment? text?).getD defaultAlignment = 2 ^ k := by
  cases h : usableAlignment? text? with
  | none => exact ⟨5, by decide, rfl⟩
  | some n =>
    unfold usableAlignment? at h
    have hn := (Option.filter_eq_some_iff.1 h).2
    simpa using hn

/--
Each variable has a say in its own setting alone.
-/
theorem ofEnvironment_eq (env : Environment)
    : ofEnvironment env = {
        alignment := (usableAlignment? env.alignment?).getD defaultAlignment
        version := (usableVersion? env.version?).getD 3
      } := by
  have hpower := usableAlignment?_getD env.alignment?
  unfold ofEnvironment usableAlignment? usableVersion?
  unfold usableAlignment? at hpower
  generalize readVariable? wordBound env.alignment? = alignment? at hpower ⊢
  cases alignment? with
  | none =>
    cases readVariable? halfWordBound env.version? with
    | none => rfl
    | some version => exact orElse_version version hpower
  | some alignment =>
    have hfirst := orElse_alignment (c := {}) alignment (.inr rfl)
    cases readVariable? halfWordBound env.version? with
    | none => exact hfirst
    | some version =>
      dsimp only
      rw [hfirst]
      exact orElse_version version hpower

end CodecConfig

namespace Toml.Fields

theorem get?_eq_some_iff {fields : Toml.Fields} {name : String} {read : Toml.Value → Option α}
    {default a : α}
    : fields.get? name read default = some a ↔
      (fields.find? name = none ∧ default = a) ∨
        ∃ value, fields.find? name = some value ∧ read value = some a := by
  unfold Toml.Fields.get?
  cases fields.find? name with
  | none => simp
  | some value => simp

theorem getD_of_get? {fields : Toml.Fields} {name : String} {read : Toml.Value → Option α}
    {default a : α} (h : fields.get? name read default = some a)
    : a = ((fields.find? name).bind read).getD default := by
  rcases get?_eq_some_iff.1 h with ⟨hnone, rfl⟩ | ⟨value, hsome, hread⟩
  . rw [hnone]
    rfl
  . rw [hsome, Option.bind_some, hread]
    rfl

end Toml.Fields

namespace Settings

/--
The path of the configuration file that is read, if any is.
-/
def configFile? (d : Disk) (path? : Option String) : Option String :=
  path?.or (if d.isFile defaultFile then some defaultFile else none)

/--
What the text of a configuration file says of a setting of the codec, if it mentions it.
-/
def codecField? (text : List Char) (name : String) : Option Toml.Value := do
  let fields ← Toml.parse? text
  let codec ← fields.find? "codec"
  let members ← codec.members? ["alignment", "gguf_version", "max_string_len"]
  members.find? name

def textAlignment? (text : List Char) : Option Nat :=
  (codecField? text "alignment").bind (Toml.Value.nat? wordBound)

def textVersion? (text : List Char) : Option Nat :=
  (codecField? text "gguf_version").bind (Toml.Value.nat? halfWordBound)

theorem load_eq (env : Environment) (d : Disk) (path? : Option String)
    : load env d path?
        =
      match configFile? d path? with
      | some path => ofFile d path
      | none => .ok { codec := .ofEnvironment env } := by
  cases path? with
  | some path => rfl
  | none =>
    unfold load configFile?
    dsimp only
    split
    . rfl
    . rfl

theorem exists_members_of_ofToml? {value : Toml.Value} {c : CodecConfig}
    (h : CodecConfig.ofToml? value = some c)
    : ∃ members, value.members? ["alignment", "gguf_version", "max_string_len"] = some members ∧
        c.alignment
          = ((members.find? "alignment").bind (Toml.Value.nat? wordBound)).getD defaultAlignment ∧
        c.version
          = ((members.find? "gguf_version").bind (Toml.Value.nat? halfWordBound)).getD 3 := by
  unfold CodecConfig.ofToml? at h
  simp only [Option.bind_eq_bind, Option.bind_eq_some_iff, Option.pure_def, Option.some.injEq] at h
  obtain ⟨members, hmembers, alignment, halignment, version, hversion, _, _, rfl⟩ := h
  exact ⟨members, hmembers, Toml.Fields.getD_of_get? halignment,
    Toml.Fields.getD_of_get? hversion⟩

theorem codec_of_ofText {text : List Char} {s : Settings} (h : ofText text = .ok s)
    : s.codec.alignment = (textAlignment? text).getD defaultAlignment ∧
        s.codec.version = (textVersion? text).getD 3 := by
  unfold ofText at h
  dsimp only at h
  split at h
  . next settings hsettings =>
    rw [Except.ok.injEq] at h
    subst h
    simp only [Option.bind_eq_bind, Option.bind_eq_some_iff, Option.pure_def, Option.some.injEq]
      at hsettings
    obtain ⟨fields, hparse, _, _, codec, hcodec, rfl⟩ := hsettings
    have hfield (name : String) : codecField? text name
        = (fields.find? "codec").bind fun codec =>
            (codec.members? ["alignment", "gguf_version", "max_string_len"]).bind
              (Toml.Fields.find? · name) := by
      unfold codecField?
      rw [hparse]
      rfl
    unfold textAlignment? textVersion?
    rw [hfield, hfield]
    rcases Toml.Fields.get?_eq_some_iff.1 hcodec with ⟨hnone, rfl⟩ | ⟨value, hsome, hread⟩
    . rw [hnone]
      exact ⟨rfl, rfl⟩
    . obtain ⟨members, hmembers, halignment, hversion⟩ := exists_members_of_ofToml? hread
      rw [hsome, Option.bind_some, Option.bind_some, hmembers]
      exact ⟨halignment, hversion⟩
  . simp at h

theorem ofFile_eq_ok_iff {d : Disk} {path : String} {s : Settings}
    : ofFile d path = .ok s ↔ ∃ text, readText d path = .ok text ∧ ofText text = .ok s := by
  unfold ofFile
  cases readText d path with
  | error failure => simp
  | ok text => simp [Failure.during, mapError_eq_ok_iff]

theorem codec_of_build {s s' : Settings} {level? : Option String} {flag? : Option Nat}
    (h : s.build level? flag? = .ok s')
    : s'.codec = { s.codec with alignment := flag?.getD s.codec.alignment } := by
  unfold build at h
  simp only [bind_eq_ok_iff, pure_eq_ok_iff] at h
  obtain ⟨_, _, rfl⟩ := h
  rfl

/--
The alignment that the flag and the environment make without regard to files.
-/
def layeredAlignment (env : Environment) (flag? : Option Nat) : Nat :=
  flag?.getD ((CodecConfig.usableAlignment? env.alignment?).getD defaultAlignment)

def layeredVersion (env : Environment) : Nat :=
  (CodecConfig.usableVersion? env.version?).getD 3

/--
Where the alignment and the version come from. Without a configuration file they are those of the
flag, the environment and the defaults, in this order. With one the environment makes no difference:
a setting that the file leaves out has its default, which is what the environment would have made of
it only if the flag is given or the environment agrees with the default.
-/
theorem sources_of_build {env : Environment} {d : Disk} {path? level? : Option String}
    {flag? : Option Nat} {s s' : Settings} (hload : load env d path? = .ok s)
    (hbuild : s.build level? flag? = .ok s')
    : (configFile? d path? = none →
        s'.codec.alignment = layeredAlignment env flag? ∧ s'.codec.version = layeredVersion env) ∧
      ∀ path, configFile? d path? = some path →
        (∀ env', load env' d path? = .ok s) ∧
        ∃ text, readText d path = .ok text ∧
          s'.codec.alignment = flag?.getD ((textAlignment? text).getD defaultAlignment) ∧
          s'.codec.version = (textVersion? text).getD 3 ∧
          (codecField? text "alignment" = none →
            (s'.codec.alignment = layeredAlignment env flag? ↔
              flag?.isSome ∨
                (CodecConfig.usableAlignment? env.alignment?).getD defaultAlignment
                  = defaultAlignment)) ∧
          (codecField? text "gguf_version" = none →
            (s'.codec.version = layeredVersion env ↔ layeredVersion env = 3)) := by
  have hcodec := codec_of_build hbuild
  constructor
  . intro hfile
    rw [load_eq, hfile] at hload
    cases hload
    rw [hcodec, CodecConfig.ofEnvironment_eq]
    exact ⟨rfl, rfl⟩
  . intro path hfile
    constructor
    . intro env'
      rw [← hload, load_eq, load_eq, hfile]
    . rw [load_eq, hfile] at hload
      obtain ⟨text, htext, hsettings⟩ := ofFile_eq_ok_iff.1 hload
      obtain ⟨halignment, hversion⟩ := codec_of_ofText hsettings
      rw [hcodec, halignment, hversion]
      refine ⟨text, htext, rfl, rfl, ?_, ?_⟩
      . intro hnone
        unfold textAlignment? layeredAlignment
        rw [hnone]
        cases flag? with
        | none => simp [eq_comm]
        | some flag => simp
      . intro hnone
        unfold textVersion?
        rw [hnone]
        simp [eq_comm]

/--
A disk with a configuration file that sets the version and leaves out the alignment.
-/
def versionText : String := "[codec]\ngguf_version = 2\n"

def versionDisk : Disk :=
  ⟨[([defaultFile], .file 0 (versionText.toList.map (fun c => UInt8.ofNat c.toNat)))], 1⟩

def versionSettings : Settings := { codec := { version := 2 } }

def wideEnvironment : Environment := { alignment? := some " 64 ", version? := some "9" }

theorem sources_of_build_versionDisk
    : load wideEnvironment versionDisk none = .ok versionSettings ∧
      versionSettings.build none none = .ok versionSettings ∧
      codecField? versionText.toList "alignment" = none ∧
      layeredAlignment wideEnvironment none = 64 ∧
      ¬ versionSettings.codec.alignment = layeredAlignment wideEnvironment none := by
  have hload : load wideEnvironment versionDisk none = .ok versionSettings := by
    decide +kernel
  have hbuild : versionSettings.build none none = .ok versionSettings := by
    decide +kernel
  have htext : readText versionDisk defaultFile = .ok versionText.toList := by
    decide +kernel
  have hnone : codecField? versionText.toList "alignment" = none := by
    apply Option.isNone_iff_eq_none.1
    decide +kernel
  obtain ⟨_, hfile⟩ := sources_of_build hload hbuild
  obtain ⟨_, text, htext', _, _, halign, _⟩ := hfile defaultFile (by decide +kernel)
  rw [htext, Except.ok.injEq] at htext'
  rw [← htext'] at halign
  refine ⟨hload, hbuild, hnone, by decide +kernel, ?_⟩
  rw [halign hnone]
  decide +kernel

end Settings

end TensorFiles
