import TensorFiles.Proofs.Gguf.Container.Metadata
/-!
This module contains what is known of a container after its index has been read, whatever its file
holds: calls on the metadata leave the descriptors alone, and the last descriptor locates the
data.
-/

namespace TensorFiles.Gguf.Container

variable {α β : Type}

/--
The call leaves the counts of descriptors as they are, also when it fails.
-/
def KeepsIndex (call : Call α) : Prop :=
  ∀ c : Container, (exec call c).2.tensorCount = c.tensorCount ∧
    (exec call c).2.tensorsDone = c.tensorsDone

theorem KeepsIndex.bind {x : Call α} {f : α → Call β} (hx : KeepsIndex x)
    (hf : ∀ a, KeepsIndex (f a)) : KeepsIndex (x >>= f) := by
  apply rel_snd_exec_bind (R := fun (c c' : Container) =>
    c'.tensorCount = c.tensorCount ∧ c'.tensorsDone = c.tensorsDone) _ hx hf
  rintro c c₁ c₂ ⟨hcount, hdone⟩ ⟨hcount', hdone'⟩
  exact ⟨hcount'.trans hcount, hdone'.trans hdone⟩

theorem KeepsIndex.get_bind {f : Container → Call β} (hf : ∀ c, KeepsIndex (f c))
    : KeepsIndex (getThe Container >>= f) := by
  intro c
  rw [exec_bind_of_ok (exec_get c)]
  exact hf c c

theorem keepsIndex_advance (read : Read α) : KeepsIndex (advance read) := by
  intro c
  unfold advance
  rw [exec_bind_of_ok (exec_get c)]
  cases c.data with
  | error e =>
    rw [exec_bind_of_error (exec_lift _ c)]
    exact ⟨rfl, rfl⟩
  | ok data =>
    rw [exec_bind_of_ok (exec_lift _ c)]
    split
    . exact ⟨rfl, rfl⟩
    . exact ⟨rfl, rfl⟩

theorem MetadataCall.keepsIndex {call : Call α} (h : MetadataCall call) : KeepsIndex call := by
  induction h with
  | pure a => exact fun c => ⟨rfl, rfl⟩
  | throw_bind e f => exact fun c => ⟨rfl, rfl⟩
  | lift x => exact fun c => ⟨rfl, rfl⟩
  | modify hf => exact hf.tensors
  | advance _ => exact keepsIndex_advance _
  | bind _ _ ihx ihf => exact ihx.bind ihf
  | get_bind _ _ ih => exact .get_bind ih

/--
Each descriptor counts. Once they are all read, the next call locates the data.
-/
theorem exec_nextDescriptor_eq_ok {c c' : Container} {next? : Option Descriptor}
    (h : exec nextDescriptor c = (.ok next?, c'))
    : (c.tensorsDone = c.tensorCount ∧ next? = none ∧ c'.dataStart?.isSome) ∨
      (c.tensorsDone ≠ c.tensorCount ∧ next?.isSome ∧ c'.tensorCount = c.tensorCount ∧
        c'.tensorsDone = c.tensorsDone + 1) := by
  unfold nextDescriptor at h
  obtain ⟨_, c₁, hleave, h⟩ := exec_bind_eq_ok h
  have hcounts : c₁.tensorCount = c.tensorCount ∧ c₁.tensorsDone = c.tensorsDone := by
    rw [exec_modify, Prod.mk.injEq] at hleave
    rw [← hleave.2]
    split
    . exact ⟨rfl, rfl⟩
    . exact ⟨rfl, rfl⟩
  rw [exec_bind_of_ok (exec_get c₁)] at h
  obtain ⟨_, c₂, hsection, h⟩ := exec_bind_eq_ok h
  rw [exec_lift_eq_iff] at hsection
  rw [← hsection.2, hcounts.1, hcounts.2] at h
  split at h
  . next hlast =>
    rw [exec_bind_of_ok (exec_modify _ c₁), exec_pure_eq_ok_iff] at h
    rw [← h.1, ← h.2]
    exact .inl ⟨hlast, rfl, rfl⟩
  . next hmore =>
    obtain ⟨d, c₃, hadvance, h⟩ := exec_bind_eq_ok h
    have hkept := keepsIndex_advance Read.descriptor c₁
    rw [exec_bind_of_ok (exec_modify _ c₃), exec_pure_eq_ok_iff] at h
    rw [hadvance, hcounts.1, hcounts.2] at hkept
    rw [← h.1, ← h.2]
    exact .inr ⟨hmore, rfl, hkept.1, congrArg (· + 1) hkept.2⟩

theorem isSome_dataStart?_of_readDescriptorsLeft {left : Nat} {c c' : Container}
    {ds : List Descriptor} (hleft : c.tensorsDone + left = c.tensorCount)
    (h : exec (readDescriptorsLeft left) c = (.ok ds, c')) : c'.dataStart?.isSome := by
  -- what is left to read and what has been read make up the index
  induction left generalizing c ds with
  | zero =>
    obtain ⟨next?, c₁, hnext, hend⟩ := exec_bind_eq_ok h
    rw [exec_pure, Prod.mk.injEq] at hend
    rw [← hend.2]
    cases exec_nextDescriptor_eq_ok hnext with
    | inl hlast => exact hlast.2.2
    | inr hmore => exact absurd hleft hmore.1
  | succ left ih =>
    obtain ⟨next?, c₁, hnext, hrest⟩ := exec_bind_eq_ok h
    rcases exec_nextDescriptor_eq_ok hnext with ⟨hlast, -, -⟩ | ⟨-, hsome, hcount, hdone⟩
    . omega
    . obtain ⟨d, rfl⟩ := Option.isSome_iff_exists.1 hsome
      obtain ⟨rest, c₂, hrest, hend⟩ := exec_bind_eq_ok hrest
      rw [exec_pure, Prod.mk.injEq] at hend
      rw [hend.2] at hrest
      have hleft' : c₁.tensorsDone + left = c₁.tensorCount := by omega
      exact ih hleft' hrest

theorem isSome_dataStart?_of_readDescriptors {c c' : Container} {ds : List Descriptor}
    (hdone : c.tensorsDone ≤ c.tensorCount) (h : exec readDescriptors c = (.ok ds, c'))
    : c'.dataStart?.isSome := by
  unfold readDescriptors at h
  rw [exec_bind_of_ok (exec_get c)] at h
  exact isSome_dataStart?_of_readDescriptorsLeft (Nat.add_sub_of_le hdone) h

theorem exec_advance_eq_ok {read : Read α} {c c' : Container} {a : α} {data : List UInt8}
    (hdata : c.data = .ok data) (h : exec (advance read) c = (.ok a, c'))
    : ∃ cursor, exec read ⟨data, c.offset, c.maxStringLen⟩ = (.ok a, cursor) ∧
        c' = { c with offset := cursor.offset } := by
  unfold advance at h
  rw [exec_bind_of_ok (exec_get c), hdata, exec_bind_of_ok (exec_lift _ c)] at h
  split at h
  . next a' cursor hrun =>
    rw [exec_bind_of_ok (exec_modify _ c), exec_pure_eq_ok_iff] at h
    obtain ⟨rfl, rfl⟩ := h
    exact ⟨cursor, hrun, rfl⟩
  . simp at h

theorem openData_eq_ok {path : String} {file : Nat} {data : List UInt8} {config : CodecConfig}
    {c : Container} (h : openData path file data config = .ok c)
    : ∃ version tensors records bytes, Stands data 0 bytes ∧
        (∀ limit, config.maxStringLen ≤ limit →
          Reads Read.header bytes limit (version, tensors, records)) ∧
        c = {
          medium := .opened file data
          path
          offset := bytes.length
          alignment := defaultAlignment
          version
          maxStringLen := config.maxStringLen
          tensorCount := tensors
          recordCount := records } := by
  unfold openData at h
  dsimp only at h
  split at h
  . next header c₁ hrun =>
    obtain ⟨cursor, hread, rfl⟩ := exec_advance_eq_ok rfl hrun
    obtain ⟨bytes, _, hstands, rfl, hreads⟩ :=
      delimited_header _ cursor header (Nat.zero_le _) hread
    rw [bind_eq_ok_iff] at h
    obtain ⟨_, hheader, h⟩ := h
    rw [Except.ok.injEq] at hheader
    rw [← hheader, pure_eq_ok_iff] at h
    refine ⟨header.1, header.2.1, header.2.2, bytes, hstands, hreads, ?_⟩
    rw [← h, Nat.zero_add]
  . rw [bind_eq_ok_iff] at h
    obtain ⟨_, h, _⟩ := h
    simp at h

theorem tensorsDone_of_openData {path : String} {file : Nat} {data : List UInt8}
    {config : CodecConfig} {c : Container} (h : openData path file data config = .ok c)
    : c.tensorsDone = 0 := by
  obtain ⟨_, _, _, _, _, _, rfl⟩ := openData_eq_ok h
  rfl

end TensorFiles.Gguf.Container
