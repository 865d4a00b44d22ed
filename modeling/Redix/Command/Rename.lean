import Redix.Command.Refinement

/-!
# Renaming a key

`RENAME` moves an entry out of its slot, erases the slot, and writes the entry under the new
key. On the live content this is one operation of the map (`live_rename`), whatever the two keys
hold: an expired source counts as missing, and an expired destination is overwritten like a live
one.
-/

namespace Redix

variable {now : UInt64} {s : Store} {src dst key : Bytes} {e : Entry}

theorem dispatch_rename (now : UInt64) (s : Store) (src dst : Bytes) :
    dispatch now ⟨ascii "RENAME", [src, dst]⟩ s =
      (if (s.rename now src dst).1 then respOk else respError (ascii "ERR no such key"),
        (s.rename now src dst).2) := rfl

theorem Store.rename_of_live (hlive : findLive now s.data src = some e) (dst : Bytes) :
    s.rename now src dst = (true, ⟨(s.data.put src none).put dst (some e)⟩) := by
  have hdata : s.data.put src (some e) = s.data :=
    FlatMap.put_find? s.data (find?_of_findLive hlive)
  rw [Store.rename, findLiveMut_eq, hlive]
  show (true, Store.mk ((((s.data.put src (some e)).erase src).insert dst e))) = _
  rw [hdata]
  rfl

theorem Store.rename_of_dead (hdead : findLive now s.data src = none) (dst : Bytes) :
    s.rename now src dst = (false, ⟨s.data.put src none⟩) := by
  rw [Store.rename, findLiveMut_eq, hdead]

theorem Store.rename_fst (now : UInt64) (s : Store) (src dst : Bytes) :
    (s.rename now src dst).1 = (findLive now s.data src).isSome := by
  cases hsrc : findLive now s.data src with
  | none => rw [Store.rename_of_dead hsrc]; rfl
  | some e => rw [Store.rename_of_live hsrc]; rfl

/-- **The live content is renamed.** -/
theorem Store.live_rename (now : UInt64) (s : Store) (src dst : Bytes) :
    (s.rename now src dst).2.live now = (s.live now).rename src dst := by
  cases hsrc : findLive now s.data src with
  | none =>
    have hnone : (s.live now).find? src = none := by rw [find?_live, hsrc]
    rw [Store.rename_of_dead hsrc, FlatMap.rename_of_none hnone]
    show Keyspace.purge (alive now) (s.data.put src none) = _
    rw [Keyspace.purge_put]
    exact FlatMap.put_find? _ hnone
  | some e =>
    have hsome : (s.live now).find? src = some e := by rw [find?_live, hsrc]
    have halive : (some e).filter (alive now) = some e := by
      rw [← hsrc, filter_findLive]
    rw [Store.rename_of_live hsrc, FlatMap.rename_of_some hsome]
    show Keyspace.purge (alive now) ((s.data.put src none).put dst (some e)) = _
    rw [Keyspace.purge_put, Keyspace.purge_put, halive]
    rfl

/-- Entries under other keys stay as they are, expired ones too. -/
theorem Store.find?_rename (hsrc : key ≠ src) (hdst : key ≠ dst) :
    (s.rename now src dst).2.data.find? key = s.data.find? key := by
  cases hlive : findLive now s.data src with
  | none =>
    rw [Store.rename_of_dead hlive]
    exact FlatMap.find?_put_ne s.data hsrc.symm none
  | some e =>
    rw [Store.rename_of_live hlive]
    show ((s.data.put src none).put dst (some e)).find? key = s.data.find? key
    rw [FlatMap.find?_put_ne _ hdst.symm, FlatMap.find?_put_ne _ hsrc.symm]

/-- **`RENAME` moves a key whole.** It is accepted exactly if the source is live. Then the
destination holds what the source did, value and deadline, the source is gone unless the two
are one key, and every other entry is as it was. A key renamed to itself leaves the live content
as it was, and so does a renaming to a free key and back. -/
theorem rename_moves_whole (now : UInt64) (s : Store) (src dst : Bytes) :
    let renamed := dispatch now ⟨ascii "RENAME", [src, dst]⟩ s
    (renamed.1 = respOk ↔ (findLive now s.data src).isSome) ∧
    (∀ e, findLive now s.data src = some e →
      findLive now renamed.2.data dst = some e ∧
      (src ≠ dst → findLive now renamed.2.data src = none) ∧
      ∀ key, key ≠ src → key ≠ dst → renamed.2.data.find? key = s.data.find? key) ∧
    (src = dst → renamed.2.live now = s.live now) ∧
    (findLive now s.data dst = none →
      (dispatch now ⟨ascii "RENAME", [dst, src]⟩ renamed.2).2.live now = s.live now) := by
  intro renamed
  have hreply : renamed.1 =
      if (s.rename now src dst).1 then respOk else respError (ascii "ERR no such key") :=
    congrArg Prod.fst (dispatch_rename now s src dst)
  have hafter : renamed.2 = (s.rename now src dst).2 :=
    congrArg Prod.snd (dispatch_rename now s src dst)
  -- on the live content, the command is the renaming of a map
  have hlive : renamed.2.live now = (s.live now).rename src dst := by
    rw [hafter, Store.live_rename]
  refine ⟨?_, fun e he => ?_, ?_, fun hfree => ?_⟩
  · rw [hreply, Store.rename_fst]
    cases (findLive now s.data src).isSome with
    | true => exact iff_of_true rfl rfl
    | false => exact iff_of_false (by decide) Bool.false_ne_true
  · have hsrc : (s.live now).find? src = some e := by rw [find?_live, he]
    refine ⟨?_, fun hne => ?_, fun key => ?_⟩
    · rw [← find?_live, hlive, FlatMap.rename_of_some hsrc, FlatMap.find?_put_self]
    · rw [← find?_live, hlive, FlatMap.rename_of_some hsrc, FlatMap.find?_put_ne _ hne.symm,
        FlatMap.find?_put_self]
    · rw [hafter]
      exact Store.find?_rename
  · rintro rfl
    exact hlive.trans (FlatMap.rename_self _ src)
  · have hnone : (s.live now).find? dst = none := by rw [find?_live, hfree]
    show ((renamed.2).rename now dst src).2.live now = s.live now
    rw [Store.live_rename, hlive, FlatMap.rename_back hnone]

/-- Over an expired key, and back. -/
theorem rename_moves_whole_expired :
    let s : Store := ⟨(FlatMap.empty.insert (ascii "k") ⟨.string (ascii "v"), 9⟩).insert
      (ascii "l") ⟨.string (ascii "old"), 2⟩⟩
    let after := (dispatch 5 ⟨ascii "RENAME", [ascii "k", ascii "l"]⟩ s).2
    findLive 5 after.data (ascii "l") = some ⟨.string (ascii "v"), 9⟩ ∧
    findLive 5 after.data (ascii "k") = none ∧
    (dispatch 5 ⟨ascii "RENAME", [ascii "l", ascii "k"]⟩ after).2.live 5 = s.live 5 := by
  intro s after
  obtain ⟨-, hmoved, -, hback⟩ := rename_moves_whole 5 s (ascii "k") (ascii "l")
  obtain ⟨hdst, hsrc, -⟩ := hmoved ⟨.string (ascii "v"), 9⟩ (by decide)
  exact ⟨hdst, hsrc (by decide), hback (by decide)⟩

end Redix
