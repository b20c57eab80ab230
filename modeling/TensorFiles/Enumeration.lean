import TensorFiles.Bytes.Utf8
/-!
This module contains maps in the form of a hash table, which lists its entries in an order that
depends on its history. Whoever needs an order sorts the names by their bytes and looks each of
them up.
-/

namespace TensorFiles

structure Enumeration (α : Type) where
  entries : List (String × α)
  nodup : (entries.map (·.1)).Nodup

namespace Enumeration

def find? (e : Enumeration α) (key : String) : Option α :=
  (e.entries.find? (·.1 = key)).map (·.2)

/--
The names in byte order.
-/
def sortedKeys (e : Enumeration α) : List String :=
  (e.entries.map (·.1)).mergeSort (fun a b => Utf8.encode a ≤ Utf8.encode b)

/--
The entries in byte order of their names.
-/
def sortedEntries (e : Enumeration α) : List (String × α) :=
  e.sortedKeys.filterMap (fun key => (e.find? key).map (fun value => (key, value)))

end Enumeration

end TensorFiles
