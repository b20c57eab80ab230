import TensorFiles.Proofs.Gguf.Container.Index
import TensorFiles.Proofs.Gguf.Container.Reading
import TensorFiles.Proofs.Gguf.Delimited
import TensorFiles.Proofs.Gguf.Load
/-!
This module contains the repetition of what has been read from a container. A call that succeeds has
taken some bytes, and it gives the same on any container that has come equally far and has these
bytes in front of it. How many tensors there are only matters once descriptors are read.
-/

namespace TensorFiles.Gguf.Container

/--
If the call succeeds, then by taking bytes that it can be repeated on.
-/
def Replays (counted : Prop) (call : Call α) : Prop :=
  ∀ (c c' : Container) (a : α) (data : List UInt8), c.data = .ok data →
    c.offset ≤ data.length → exec call c = (.ok a, c') →
    ∃ bytes, Stands data c.offset bytes ∧ c.Takes bytes c' ∧
      ∀ d data', Alike counted c d → d.data = .ok data' → Stands data' d.offset bytes →
        ∃ d', exec call d = (.ok a, d') ∧ Alike counted c' d'

variable {α β : Type} {counted : Prop}

theorem replays_pure (a : α) : Replays counted (pure a) := by
  intro c c' b data hdata hroom hexec
  obtain ⟨rfl, rfl⟩ := exec_pure_eq_ok_iff.1 hexec
  exact ⟨[], stands_nil hroom, c.takes_nil, fun d _ halike _ _ => ⟨d, rfl, halike⟩⟩

theorem replays_throw_bind (e : Error) (f : α → Call β)
    : Replays counted ((throw e : Call α) >>= f) := by
  intro c c' b data _ _ hexec
  rw [exec_bind_of_error (exec_throw e c)] at hexec
  simp at hexec

theorem replays_lift (x : Except Error α) : Replays counted (liftM x : Call α) := by
  intro c c' a data hdata hroom hexec
  rw [exec_lift_eq_iff] at hexec
  obtain ⟨rfl, rfl⟩ := hexec
  exact ⟨[], stands_nil hroom, c.takes_nil, fun d _ halike _ _ => ⟨d, rfl, halike⟩⟩

theorem replays_modify {f : Container → Container} (htakes : ∀ c : Container, c.Takes [] (f c))
    (hf : ∀ c d, Alike counted c d → Alike counted (f c) (f d)) : Replays counted (modify f) := by
  intro c c' u data hdata hroom hexec
  rw [exec_modify, Prod.mk.injEq] at hexec
  obtain ⟨_, rfl⟩ := hexec
  exact ⟨[], stands_nil hroom, htakes c, fun d _ halike _ _ => ⟨f d, rfl, hf c d halike⟩⟩

theorem Replays.bind {x : Call α} {f : α → Call β} (hx : Replays counted x)
    (hf : ∀ a, Replays counted (f a)) : Replays counted (x >>= f) := by
  intro c c' b data hdata hroom hexec
  obtain ⟨a, c₁, hfirst, hrest⟩ := exec_bind_eq_ok hexec
  obtain ⟨bytes, hstands, htakes, hagain⟩ := hx c c₁ a data hdata hroom hfirst
  have hroom₁ : c₁.offset ≤ data.length := by
    rw [htakes.offset]
    exact hstands.length_le
  obtain ⟨bytes', hstands', htakes', hagain'⟩ :=
    hf a c₁ c' b data (htakes.data.trans hdata) hroom₁ hrest
  rw [htakes.offset] at hstands'
  refine ⟨bytes ++ bytes', hstands.join hstands', htakes.trans htakes', ?_⟩
  intro d data' halike hd hs
  obtain ⟨d₁, hexec₁, halike₁⟩ := hagain d data' halike hd hs.left
  -- that `d` keeps its data is the first part of the same statement, for `d`
  have hd₁ : d₁.data = .ok data' := by
    obtain ⟨_, _, htakes₁, _⟩ :=
      hx d d₁ a data' hd (Nat.le_trans (Nat.le_add_right _ _) hs.length_le) hexec₁
    exact htakes₁.data.trans hd
  have hs' := hs.right
  rw [halike.offset, ← htakes.offset, ← halike₁.offset] at hs'
  obtain ⟨d', hexec', halike'⟩ := hagain' d₁ data' halike₁ hd₁ hs'
  exact ⟨d', (exec_bind_of_ok hexec₁).trans hexec', halike'⟩

theorem Replays.get_bind {f : Container → Call β} (hf : ∀ c, Replays counted (f c))
    (hsame : ∀ c d, Alike counted c d → f d = f c)
    : Replays counted (getThe Container >>= f) := by
  intro c c' b data hdata hroom hexec
  rw [exec_bind_of_ok (exec_get c)] at hexec
  obtain ⟨bytes, hstands, htakes, hagain⟩ := hf c c c' b data hdata hroom hexec
  refine ⟨bytes, hstands, htakes, fun d data' halike hd hs => ?_⟩
  rw [exec_bind_of_ok (exec_get d), hsame c d halike]
  exact hagain d data' halike hd hs

theorem replays_advance {least : Nat} {read : Read α} (h : Delimited least read)
    : Replays counted (advance read) := by
  intro c c' a data hdata hroom hexec
  obtain ⟨cursor, hread, rfl⟩ := exec_advance_eq_ok hdata hexec
  obtain ⟨bytes, _, hstands, rfl, hreads⟩ := h _ cursor a hroom hread
  refine ⟨bytes, hstands, ⟨rfl, rfl, rfl⟩, fun d data' halike hd hs => ?_⟩
  refine ⟨_, exec_advance (hreads _ halike.limit) rfl hd hs, ?_⟩
  exact { halike with offset := congrArg (· + bytes.length) halike.offset }

theorem MetadataCall.replays {call : Call α} (h : MetadataCall call) : Replays counted call := by
  induction h with
  | pure a => exact replays_pure a
  | throw_bind e f => exact replays_throw_bind e f
  | lift x => exact replays_lift x
  | modify hf => exact replays_modify hf.takes (fun _ _ => hf.alike)
  | advance h => exact replays_advance h
  | bind _ _ ihx ihf => exact ihx.bind ihf
  | get_bind _ hsame ih =>
    exact .get_bind ih (fun c d halike => hsame c d { halike with tensors := False.elim })

theorem replays_nextDescriptor : Replays True nextDescriptor := by
  apply (replays_modify _ _).bind
  . intro _
    apply Replays.get_bind
    . intro c
      apply (replays_lift _).bind
      intro _
      split
      . refine .bind (replays_modify ?_ ?_) (fun _ => replays_pure none)
        . exact fun c => ⟨rfl, rfl, rfl⟩
        . intro c d halike
          refine { halike with current := rfl, dataStart := ?_ }
          rw [halike.offset, halike.alignment]
      . apply (replays_advance delimited_descriptor).bind
        intro t
        refine .bind (replays_modify ?_ ?_) (fun _ => replays_pure (some t))
        . exact fun c => ⟨rfl, rfl, rfl⟩
        . intro c d halike
          obtain ⟨hcount, hdone⟩ := halike.tensors trivial
          exact { halike with tensors := fun _ => ⟨hcount, congrArg (· + 1) hdone⟩ }
    . intro c d halike
      obtain ⟨hcount, hdone⟩ := halike.tensors trivial
      simp only [expectSection, halike.current, hcount, hdone]
  . intro c
    split
    . exact ⟨rfl, rfl, rfl⟩
    . exact c.takes_nil
  . intro c d halike
    rw [halike.current, halike.recordsDone, halike.recordCount, halike.awaitsValue]
    split
    . exact { halike with current := rfl, recordsDone := rfl, recordCount := rfl,
                          awaitsValue := rfl }
    . exact halike

theorem replays_readDescriptorsLeft (left : Nat) : Replays True (readDescriptorsLeft left) := by
  induction left with
  | zero =>
    apply replays_nextDescriptor.bind
    exact fun _ => replays_pure []
  | succ left ih =>
    apply replays_nextDescriptor.bind
    intro next?
    cases next? with
    | none => exact replays_pure []
    | some t => exact ih.bind (fun rest => replays_pure (t :: rest))

theorem replays_readDescriptors : Replays True readDescriptors := by
  apply Replays.get_bind
  . exact fun c => replays_readDescriptorsLeft _
  . intro c d halike
    obtain ⟨hcount, hdone⟩ := halike.tensors trivial
    rw [hcount, hdone]

variable {path : String} {file : Nat} {data : List UInt8} {config : CodecConfig}
  {c c' : Container}

/--
Read the metadata and then the descriptors.
-/
def readIndex : Call (Table MetaValue × List Descriptor) := do
  let metadata ← readMetadata
  let ds ← readDescriptors
  return (metadata, ds)

theorem replays_readIndex : Replays True readIndex :=
  metadataCall_readMetadata.replays.bind
    (fun metadata => replays_readDescriptors.bind (fun ds => replays_pure (metadata, ds)))

theorem readsIndex_iff {metadata : Table MetaValue} {ds : List Descriptor}
    : c.ReadsIndex metadata ds c' ↔ exec readIndex c = (.ok (metadata, ds), c') := by
  unfold readIndex
  constructor
  . rintro ⟨c₁, hmetadata, hds⟩
    rw [exec_bind_of_ok hmetadata, exec_bind_of_ok hds, exec_pure]
  . intro h
    obtain ⟨metadata', c₁, hmetadata, h⟩ := exec_bind_eq_ok h
    obtain ⟨ds', c₂, hds, h⟩ := exec_bind_eq_ok h
    simp only [exec_pure, Prod.mk.injEq, Except.ok.injEq] at h
    obtain ⟨⟨rfl, rfl⟩, rfl⟩ := h
    exact ⟨c₁, hmetadata, hds⟩

/--
An index that is read is read again from any file that begins with its bytes.
-/
theorem ReadsIndex.replay {metadata : Table MetaValue} {ds : List Descriptor}
    (hopen : openData path file data config = .ok c) (h : c.ReadsIndex metadata ds c')
    : ∃ bytes, Stands data 0 bytes ∧ c'.data = .ok data ∧ c'.offset = bytes.length ∧
        ∀ path' file' data' config', config.maxStringLen ≤ config'.maxStringLen →
          Stands data' 0 bytes →
          ∃ d d', openData path' file' data' config' = .ok d ∧ d.ReadsIndex metadata ds d' ∧
            Alike True c' d' := by
  obtain ⟨version, tensors, records, bytes, hstands, hreads, rfl⟩ := openData_eq_ok hopen
  have hroom := hstands.length_le
  rw [Nat.zero_add] at hroom
  obtain ⟨bytes', hstands', htakes, hagain⟩ :=
    replays_readIndex _ c' _ data rfl hroom (readsIndex_iff.1 h)
  refine ⟨bytes ++ bytes', ?_, htakes.data, ?_, ?_⟩
  . apply hstands.join
    rw [Nat.zero_add]
    exact hstands'
  . rw [htakes.offset, List.length_append]
  . intro path' file' data' config' hlimit hs
    have hs' := hs.right
    rw [Nat.zero_add] at hs'
    obtain ⟨d', hexec, halike⟩ := hagain
      { medium := .opened file' data', path := path', offset := bytes.length,
        alignment := defaultAlignment, version, maxStringLen := config'.maxStringLen,
        tensorCount := tensors, recordCount := records }
      data' ⟨hlimit, rfl, rfl, rfl, rfl, rfl, rfl, rfl, fun _ => ⟨rfl, rfl⟩⟩ rfl hs'
    exact ⟨_, d', openData_of_reads (hreads _ hlimit) hs.left, readsIndex_iff.2 hexec, halike⟩

end TensorFiles.Gguf.Container
