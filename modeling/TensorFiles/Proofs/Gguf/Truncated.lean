import TensorFiles.Proofs.Gguf.Container.Replay
import TensorFiles.Proofs.Gguf.Inspect
import TensorFiles.Proofs.Gguf.SaveLoad
/-!
This module contains what becomes of a saved file whose end is cut off. An index that is still read
is the one that was written, and then the payload that ends the file is missing.
-/

namespace TensorFiles.Gguf

namespace Container

variable {c c' : Container}

/--
The container `c` has come to the descriptors `ds`, which are the last of `data`.
-/
structure Before (c : Container) (data : List UInt8) (ds : List Descriptor) : Prop where
  content : c.data = .ok data
  current : c.current = .descriptors
  count : c.tensorsDone + ds.length = c.tensorCount
  stands : Stands data c.offset (ds.flatMap Descriptor.encode)

variable {data : List UInt8} {ds : List Descriptor}

theorem Before.tail {d : Descriptor} (h : c.Before data (d :: ds))
    : Before { c with offset := c.offset + d.encode.length, tensorsDone := c.tensorsDone + 1 }
        data ds := by
  obtain ⟨hdata, hs, hcount, hstands⟩ := h
  rw [List.length_cons] at hcount
  rw [List.flatMap_cons] at hstands
  exact ⟨hdata, hs, by dsimp only; omega, hstands.right⟩

variable {w : Written} {version alignment : Nat} {entries : List (String × MetaValue)}
  {config : CodecConfig} {path : String} {file : Nat}

end Container

/--
What can be loaded can be inspected, and shows the metadata that is loaded.
-/
theorem exists_inspect_of_load {d : Disk} {path : String} {config : CodecConfig} {content : Content}
    (h : load d path config = .ok content)
    : ∃ summary, inspect d path config = .ok summary ∧ content.metadata = summary.metadata := by
  obtain ⟨c, hopen, hcontent⟩ := load_eq_ok_iff.1 h
  have hdone := Container.tensorsDone_of_ofFile hopen
  obtain ⟨summary, hsummary, _⟩ := (Container.exists_readContent_iff hdone).1 ⟨content, hcontent⟩
  exact ⟨summary, inspect_eq_ok_iff.2 ⟨c, hopen, hsummary⟩,
    (Container.content_of_summary hcontent hsummary).1⟩

/--
Some length is enough for all strings.
-/
theorem exists_limit (texts : List String) (least : Nat)
    : ∃ limit, least ≤ limit ∧ ∀ s ∈ texts, s.utf8ByteSize ≤ limit := by
  induction texts with
  | nil => exact ⟨least, Nat.le_refl least, by simp⟩
  | cons s texts ih =>
    obtain ⟨limit, hleast, hall⟩ := ih
    refine ⟨max limit s.utf8ByteSize, by omega, ?_⟩
    rw [List.forall_mem_cons]
    refine ⟨by omega, fun t ht => ?_⟩
    have := hall t ht
    omega

end TensorFiles.Gguf
