import BotConsole.Dict
import BotConsole.Proofs.Lookup
import Mathlib.Data.List.Nodup

namespace BotConsole

variable {α : Type}

theorem Ascending.nodup_keys {entries : List (String × α)} (h : Ascending entries) :
    (entries.map (·.1)).Nodup := by
  rw [List.Nodup, List.pairwise_map]
  refine h.imp fun hlt heq => ?_
  rw [heq] at hlt
  exact String.lt_irrefl _ hlt

namespace Dict

variable {d : Dict α} {key : String}

theorem mem_entries_iff {value : α} : (key, value) ∈ d.entries ↔ d.get? key = some value :=
  (lookup_eq_some_iff_mem d.ascending.nodup_keys).symm

theorem mem_keys_iff : key ∈ d.keys ↔ ∃ value, d.get? key = some value := by
  simp [keys, mem_entries_iff]

theorem ofPairs_entries (d : Dict α) : ofPairs d.entries = d := by
  refine ext_get? fun key => ?_
  have hget := get?_overlay empty d key
  rwa [get?_empty, Option.or_none] at hget

theorem insertMany_perm {pairs pairs' : List (String × α)} (h : pairs.Perm pairs')
    (hkeys : (pairs.map (·.1)).Nodup) (d : Dict α) : d.insertMany pairs = d.insertMany pairs' := by
  refine ext_get? fun key => ?_
  have hreverse : pairs.reverse.Perm pairs'.reverse :=
    pairs.reverse_perm.trans (h.trans pairs'.reverse_perm.symm)
  have hkeys' : (pairs.reverse.map (·.1)).Nodup :=
    (pairs.reverse_perm.map (·.1)).symm.nodup hkeys
  rw [get?_insertMany, get?_insertMany, lookup_perm hreverse hkeys']

theorem entries_ofPairs_perm {pairs : List (String × α)} (hkeys : (pairs.map (·.1)).Nodup) :
    (ofPairs pairs).entries.Perm pairs := by
  have hentries : (ofPairs pairs).entries.Nodup := (ofPairs pairs).ascending.nodup_keys.of_map
  have hkeys' : (pairs.reverse.map (·.1)).Nodup := (pairs.reverse_perm.map (·.1)).symm.nodup hkeys
  rw [List.perm_ext_iff_of_nodup hentries hkeys.of_map]
  rintro ⟨key, value⟩
  rw [mem_entries_iff, ofPairs, get?_insertMany, get?_empty, Option.or_none,
    lookup_eq_some_iff_mem hkeys', List.mem_reverse]

end Dict

end BotConsole
