import TensorFiles.Command.Report
import TensorFiles.Proofs.Command.Loaded
import TensorFiles.Proofs.Gguf.Limited
import TensorFiles.Proofs.Gguf.Truncated
import TensorFiles.Proofs.Settings
/-!
This module contains reports on GGUF files. A report is made by inspecting the file under the default
limit on texts, so the limit of the settings, which a load keeps to, makes no difference to it.
-/

namespace TensorFiles

/--
The environment has no say in how long texts may be.
-/
theorem CodecConfig.maxStringLen_ofEnvironment (env : Environment)
    : (ofEnvironment env).maxStringLen = ({} : CodecConfig).maxStringLen := by
  rw [ofEnvironment_eq]

namespace Command

variable {d : Disk} {path : String} {id : Nat} {data : List UInt8} {s : Settings} {env : Environment}

theorem report_eq_ok_iff {r : Report} (hformat : formatOf path = .ok .gguf)
    : Report.ofFile env d path s = .ok r ↔ ∃ summary,
        Gguf.inspect d path (.ofEnvironment env) = .ok summary ∧
          Report.ofSummary path summary = r := by
  unfold Report.ofFile
  simp only [hformat, bind_eq_ok_iff, Except.ok.injEq, exists_eq_left', pure_eq_ok_iff,
    Failure.during_eq_ok_iff, Failure.lift_eq_ok_iff]

theorem loadAny_eq_ok_iff_load {content : Gguf.Content} (hformat : formatOf path = .ok .gguf)
    : loadAny d path s = .ok content ↔ Gguf.load d path s.codec = .ok content := by
  rw [loadAny_eq_ok_iff, hformat]
  simp only [Except.ok.injEq, exists_eq_left', Loads]

/--
A report on a GGUF file is the same whatever the settings are. It keeps to the default limit on texts,
and a load to that of the settings: a file that can be loaded has a report if and only if all its texts
keep to the default limit as well. The report then lists the keys of the metadata that is loaded.
-/
theorem report_limited_by_default (env : Environment) (s : Settings)
    (hformat : formatOf path = .ok .gguf) (hfind : d.find path = .ok (.file id data))
    : (∀ s', Report.ofFile env d path s' = Report.ofFile env d path s) ∧
      (∀ r, Report.ofFile env d path s = .ok r → ∃ texts, Gguf.HasTexts data texts ∧
        ∀ raw ∈ texts, raw.length ≤ ({} : CodecConfig).maxStringLen) ∧
      ∀ content, loadAny d path s = .ok content → ∃ texts, Gguf.HasTexts data texts ∧
        (∀ raw ∈ texts, raw.length ≤ s.codec.maxStringLen) ∧
        ((∃ r, Report.ofFile env d path s = .ok r) ↔
          ∀ raw ∈ texts, raw.length ≤ ({} : CodecConfig).maxStringLen) ∧
        ∀ r, Report.ofFile env d path s = .ok r → r.metadata.keys = content.metadata.keys := by
  simp only [report_eq_ok_iff hformat, loadAny_eq_ok_iff_load hformat]
  refine ⟨?_, ?_, ?_⟩
  . intro s'
    unfold Report.ofFile
    rw [hformat]
    rfl
  . rintro r ⟨summary, hsummary, -⟩
    obtain ⟨texts, htexts, hlimit⟩ := Gguf.exists_texts_of_inspect hfind hsummary
    obtain ⟨_, hshort⟩ := (hlimit _ _).1 hsummary
    rw [CodecConfig.maxStringLen_ofEnvironment] at hshort
    exact ⟨texts, htexts, hshort⟩
  . intro content hload
    obtain ⟨summary, hinspect, hmetadata⟩ := Gguf.exists_inspect_of_load hload
    obtain ⟨texts, htexts, hlimit⟩ := Gguf.exists_texts_of_inspect hfind hinspect
    simp only [hlimit, CodecConfig.maxStringLen_ofEnvironment]
    refine ⟨texts, htexts, ((hlimit _ _).1 hinspect).2, ⟨?_, ?_⟩, ?_⟩
    . rintro ⟨_, _, ⟨_, hshort⟩, _⟩
      exact hshort
    . intro hshort
      exact ⟨_, summary, ⟨rfl, hshort⟩, rfl⟩
    . rintro _ ⟨_, ⟨rfl, _⟩, rfl⟩
      rw [hmetadata]
      exact Table.keys_map _ _

/--
A disk with a file that has a key of one byte, and a value of eight.
-/
def longValue : Disk :=
  let header := Gguf.magic ++ LittleEndian.encode 4 3 ++ LittleEndian.encode 8 0 ++
    LittleEndian.encode 8 1
  let record := Gguf.storedText [107] ++ LittleEndian.encode 4 Gguf.ValueType.string.code ++
    Gguf.storedText (List.replicate 8 97)
  ⟨[(["l.gguf"], .file 0 (header ++ record))], 1⟩

theorem report_limited_by_default_longValue
    : (loadAny longValue "l.gguf" { codec := { maxStringLen := 4 } }).isOk = false ∧
      ∃ r, Report.ofFile {} longValue "l.gguf" { codec := { maxStringLen := 4 } } = .ok r ∧
        r.metadata.keys = ["k"] := by
  have hload : loadAny longValue "l.gguf" {}
      = .ok ⟨.empty, .ofList [("k", .string "aaaaaaaa")]⟩ := by
    decide +kernel
  have hformat : formatOf "l.gguf" = .ok .gguf := by
    decide +kernel
  obtain ⟨hsame, _, hloaded⟩ := report_limited_by_default (d := longValue) {} {} hformat rfl
  obtain ⟨texts, _, hshort, hreport, hkeys⟩ := hloaded _ hload
  obtain ⟨r, hr⟩ := hreport.2 hshort
  refine ⟨by decide +kernel, r, ?_, hkeys r hr⟩
  rw [hsame]
  exact hr

end Command

end TensorFiles
