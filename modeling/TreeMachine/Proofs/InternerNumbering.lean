import Mathlib.Data.List.Nodup
import Mathlib.Data.List.TakeWhile
import TreeMachine.Proofs.FirstOccurrences
import TreeMachine.Proofs.InternerSoundness

set_option autoImplicit false

namespace TreeMachine.Symbol

/-- The strings of a shard, in the order in which they first appear. -/
def firsts (i : Fin shardCount) (calls : List String) : List String :=
  (calls.filter (shardOf · = i)).eraseDups

/-- How many distinct strings of the shard of `s` are called before `s` is. -/
def rank (calls : List String) (s : String) : Nat :=
  ((calls.takeWhile (· ≠ s)).filter (shardOf · = shardOf s)).toFinset.card

theorem mem_firsts {i : Fin shardCount} {calls : List String} {s : String} :
    s ∈ firsts i calls ↔ s ∈ calls ∧ shardOf s = i := by
  simp [firsts, List.mem_eraseDups]

theorem firsts_concat (i : Fin shardCount) (calls : List String) (s : String) :
    firsts i (calls ++ [s]) =
      firsts i calls ++ if shardOf s = i ∧ s ∉ calls then [s] else [] := by
  rw [firsts, List.filter_append]
  by_cases hi : shardOf s = i
  · by_cases hs : s ∈ calls
    · simp [firsts, eraseDups_concat, hi, hs]
    · simp [firsts, eraseDups_concat, hi, hs]
  · simp [firsts, hi]

theorem firsts_append (i : Fin shardCount) (calls more : List String) :
    firsts i (calls ++ more) = firsts i calls ++ (firsts i more).filter (· ∉ calls) := by
  rw [firsts, List.filter_append, eraseDups_append_filter]
  refine congrArg (firsts i calls ++ ·) (List.filter_congr fun s hs => ?_)
  simp [(mem_firsts.1 hs).2]

theorem takeWhile_ne {calls : List String} {s : String} (h : s ∉ calls) :
    calls.takeWhile (· ≠ s) = calls := by
  rw [List.takeWhile_eq_self_iff]
  intro u hu
  simp only [decide_eq_true_eq]
  rintro rfl
  exact h hu

theorem rank_of_not_mem {calls : List String} {s : String} (h : s ∉ calls) :
    rank calls s = (firsts (shardOf s) calls).length := by
  rw [rank, takeWhile_ne h, firsts, length_eraseDups]

theorem rank_append {before : List String} {s : String} (h : s ∉ before) (after : List String) :
    rank (before ++ s :: after) s = rank before s := by
  have hall := List.takeWhile_eq_self_iff.1 (takeWhile_ne h)
  unfold rank
  rw [List.takeWhile_append_of_pos hall, List.takeWhile_cons_of_neg (by simp), List.append_nil,
    takeWhile_ne h]

theorem idxOf_firsts (calls : List String) (s : String) :
    (firsts (shardOf s) calls).idxOf s = rank calls s := by
  by_cases hs : s ∈ calls
  · obtain ⟨before, after, rfl, hnew⟩ := List.eq_append_cons_of_mem hs
    have hbefore : s ∉ firsts (shardOf s) before := fun h => hnew (mem_firsts.1 h).1
    have hnext : firsts (shardOf s) (before ++ s :: after) = firsts (shardOf s) before ++
        s :: (firsts (shardOf s) after).filter (· ∉ before ++ [s]) := by
      rw [List.append_cons, firsts_append, firsts_concat, if_pos ⟨rfl, hnew⟩, List.append_assoc]
      rfl
    rw [hnext, List.idxOf_append_of_notMem hbefore, List.idxOf_cons_self, rank_append hnew,
      rank_of_not_mem hnew, Nat.add_zero]
  · have hfirsts : s ∉ firsts (shardOf s) calls := fun h => hs (mem_firsts.1 h).1
    rw [List.idxOf_eq_length hfirsts, rank_of_not_mem hs]

theorem rank_concat (calls : List String) (s : String) (more : List String) :
    rank (calls ++ s :: more) s = rank calls s := by
  by_cases hs : s ∈ calls
  · obtain ⟨before, after, rfl, hnew⟩ := List.eq_append_cons_of_mem hs
    rw [List.append_assoc, List.cons_append, rank_append hnew, rank_append hnew]
  · exact rank_append hs more

namespace Interner

def preset : List String := "" :: builtins

/-- Each shard holds what was called for it, in the order of first appearance, up to its last
place. -/
structure Numbered (t : Interner) (calls : List String) : Prop where
  sound : t.Sound
  strings : ∀ i, (t.shards.get i).strings.toList = (firsts i calls).take (maxPlace + 1)

theorem numbered_empty : empty.Numbered [""] := by
  refine ⟨sound_empty, fun i => ?_⟩
  rw [get_empty]
  by_cases hi : shardOf "" = i
  · simp [hi, firsts, List.eraseDups_cons]
  · simp [hi, firsts]

namespace Numbered

variable {t : Interner} {calls : List String}

theorem size_eq (h : t.Numbered calls) (i : Fin shardCount) :
    (t.shards.get i).strings.size = min (maxPlace + 1) (firsts i calls).length := by
  rw [← Array.length_toList, h.strings i, List.length_take]

theorem rank_eq (h : t.Numbered calls) {s : String} {p : Nat}
    (hp : (t.shards.get (shardOf s)).places[s]? = some p) : p = rank calls s ∧ p ≤ maxPlace := by
  have hstring := ((h.sound.shard _).inverse s p).1 hp
  have hle := (h.sound.shard _).place_le hstring
  rw [← Array.getElem?_toList, h.strings, List.getElem?_take_of_lt (by omega)] at hstring
  obtain ⟨hlt, heq⟩ := List.getElem?_eq_some_iff.1 hstring
  have hnodup : (firsts (shardOf s) calls).Nodup := nodup_eraseDups _
  have hidx := List.get_idxOf hnodup ⟨p, hlt⟩
  rw [List.get_eq_getElem, heq, idxOf_firsts] at hidx
  exact ⟨hidx.symm, hle⟩

theorem place_of_mem (h : t.Numbered calls) {s : String} (hs : s ∈ calls)
    (hle : rank calls s ≤ maxPlace) :
    (t.shards.get (shardOf s)).places[s]? = some (rank calls s) := by
  have hmem : s ∈ firsts (shardOf s) calls := mem_firsts.2 ⟨hs, rfl⟩
  have hget := List.getElem?_idxOf hmem
  rw [idxOf_firsts] at hget
  refine ((h.sound.shard _).inverse _ _).2 ?_
  rw [← Array.getElem?_toList, h.strings, List.getElem?_take_of_lt (by omega), hget]

theorem size_of_none (h : t.Numbered calls) {s : String}
    (hnone : (t.shards.get (shardOf s)).places[s]? = none) :
    (t.shards.get (shardOf s)).strings.size = min (maxPlace + 1) (rank calls s) := by
  rw [h.size_eq]
  by_cases hs : s ∈ calls
  · have hlt : maxPlace < rank calls s := by
      refine Nat.lt_of_not_le fun hle => ?_
      rw [h.place_of_mem hs hle] at hnone
      cases hnone
    have hlength : rank calls s ≤ (firsts (shardOf s) calls).length := by
      rw [← idxOf_firsts]
      exact List.idxOf_le_length
    omega
  · rw [rank_of_not_mem hs]

theorem intern_eq (h : t.Numbered calls) (s : String) :
    (t.intern s).1 =
      if rank calls s ≤ maxPlace then .ok (.pack (shardOf s) (rank calls s))
      else .error (.shardFull (shardOf s) (maxPlace + 1)) := by
  rcases t.intern_cases s with ⟨p, hp, heq⟩ | ⟨hnone, ⟨hroom, heq⟩ | ⟨hfull, heq⟩⟩
  · obtain ⟨rfl, hle⟩ := h.rank_eq hp
    rw [heq, if_pos hle]
  · have hsize := h.size_of_none hnone
    have hrank : (t.shards.get (shardOf s)).strings.size = rank calls s := by omega
    rw [heq, if_pos (by omega), hrank]
  · have hsize := h.size_of_none hnone
    have hlast : (t.shards.get (shardOf s)).strings.size = maxPlace + 1 := by omega
    rw [heq, if_neg (by omega), hlast]

theorem intern_of_mem (h : t.Numbered calls) {s : String} (hs : s ∈ calls) :
    (t.intern s).2 = t := by
  rcases t.intern_cases s with ⟨p, -, heq⟩ | ⟨hnone, ⟨hroom, heq⟩ | ⟨-, heq⟩⟩
  · rw [heq]
  · have hsize := h.size_of_none hnone
    rw [h.place_of_mem hs (by omega)] at hnone
    cases hnone
  · rw [heq]

theorem mem_of_place (h : t.Numbered calls) {s : String} {p : Nat}
    (hp : (t.shards.get (shardOf s)).places[s]? = some p) : s ∈ calls := by
  have hstring := ((h.sound.shard _).inverse s p).1 hp
  rw [← Array.getElem?_toList, h.strings] at hstring
  have hmem := List.mem_of_mem_take (List.mem_of_getElem? hstring)
  exact (mem_firsts.1 hmem).1

theorem intern (h : t.Numbered calls) (s : String) : (t.intern s).2.Numbered (calls ++ [s]) := by
  refine ⟨h.sound.intern s, fun i => ?_⟩
  have hsize := h.size_eq i
  rw [firsts_concat]
  by_cases hs : s ∈ calls
  · rw [h.intern_of_mem hs, if_neg (by simp [hs]), List.append_nil, h.strings]
  · rcases t.intern_cases s with ⟨p, hp, -⟩ | ⟨-, ⟨hroom, heq⟩ | ⟨hfull, heq⟩⟩
    · exact absurd (h.mem_of_place hp) hs
    · rw [heq, get_add]
      split
      · rename_i hi
        subst hi
        -- The shard has room, so it holds all first appearances and takes the next one.
        rw [if_pos ⟨rfl, hs⟩, Shard.strings_add, Array.toList_push, h.strings,
          List.take_of_length_le (by omega), List.take_of_length_le (by simp; omega)]
      · rename_i hi
        rw [if_neg (by simp [hi]), List.append_nil, h.strings]
    · rw [heq, h.strings]
      split
      · rename_i hi
        obtain rfl := hi.1
        rw [List.take_append_of_le_length (by omega)]
      · rw [List.append_nil]

theorem internAll (h : t.Numbered calls) (ss : List String) :
    (t.internAll ss).Numbered (calls ++ ss) := by
  induction ss generalizing t calls with
  | nil =>
    rw [List.append_nil]
    exact h
  | cons s ss ih =>
    rw [List.append_cons]
    exact ih (h.intern s)

end Numbered

theorem numbered_internAll (ss : List String) : (fresh.internAll ss).Numbered (preset ++ ss) :=
  (numbered_empty.internAll builtins).internAll ss

structure Agrees (t t' : Interner) : Prop where
  intern : ∀ s, (t.intern s).1 = (t'.intern s).1
  lookup? : ∀ n, t.lookup? n = t'.lookup? n
  size : t.size = t'.size

theorem Numbered.agrees {t t' : Interner} {calls calls' : List String} (h : t.Numbered calls)
    (h' : t'.Numbered calls') (horder : ∀ i, firsts i calls = firsts i calls') : t.Agrees t' := by
  have hstrings : ∀ i, (t.shards.get i).strings = (t'.shards.get i).strings := by
    intro i
    rw [← Array.toList_inj, h.strings, h'.strings, horder]
  refine ⟨fun s => ?_, fun n => ?_, ?_⟩
  · rw [h.intern_eq, h'.intern_eq, ← idxOf_firsts, ← idxOf_firsts, horder]
  · rw [lookup?_eq, lookup?_eq, hstrings]
  · rw [h.sound.size, h'.sound.size]
    exact Finset.sum_congr rfl fun i _ => by rw [hstrings]

end Interner

open Interner

theorem shardOf_congr {s u : String}
    (h : s.toUTF8.data.toList.take 8 = u.toUTF8.data.toList.take 8) : shardOf s = shardOf u := by
  unfold shardOf hash
  simp only [h]

/-- What a call gives for a string: the handle of its shard whose place is its rank, unless there is
no such place. -/
structure GivesRank (calls : List String) (s : String) (r : Except InternError Handle) : Prop where
  shard : ∀ n, r = .ok n → n.shard = shardOf s
  place : ∀ n, r = .ok n → n.place = rank calls s
  fails : (∃ e, r = .error e) ↔ maxPlace < rank calls s

theorem Interner.Numbered.givesRank {t : Interner} {calls : List String} (h : t.Numbered calls)
    (s : String) : GivesRank calls s (t.intern s).1 := by
  rw [h.intern_eq]
  split
  · rename_i hle
    refine ⟨fun n hn => ?_, fun n hn => ?_, ?_⟩
    · obtain rfl := Except.ok.inj hn
      exact Handle.shard_pack (shardOf s).isLt hle
    · obtain rfl := Except.ok.inj hn
      exact Handle.place_pack (shardOf s).isLt hle
    · simp [hle]
  · rename_i hlt
    refine ⟨fun n hn => ?_, fun n hn => ?_, ?_⟩
    · cases hn
    · cases hn
    · simpa using hlt

/-- The handle of a string is its shard and the number of distinct strings of that shard that came
before it. -/
theorem interner_numbering (ss : List String) :
    (∀ s u : String, s.toUTF8.data.toList.take 8 = u.toUTF8.data.toList.take 8 →
      shardOf s = shardOf u) ∧
    (∀ before s after, ss = before ++ s :: after →
      GivesRank (preset ++ ss) s ((fresh.internAll before).intern s).1) ∧
    (∀ s ∈ preset ++ ss, GivesRank (preset ++ ss) s ((fresh.internAll ss).intern s).1 ∧
      ((fresh.internAll ss).intern s).2 = fresh.internAll ss) ∧
    ∀ ss', (∀ i, (firsts i ss).filter (· ∉ preset) = (firsts i ss').filter (· ∉ preset)) →
      (∀ before s after before' after', ss = before ++ s :: after → ss' = before' ++ s :: after' →
        ((fresh.internAll before).intern s).1 = ((fresh.internAll before').intern s).1) ∧
      (fresh.internAll ss).Agrees (fresh.internAll ss') := by
  have hss := numbered_internAll ss
  refine ⟨fun s u h => shardOf_congr h, ?_, fun s hs => ⟨hss.givesRank s, hss.intern_of_mem hs⟩,
    fun ss' horder => ?_⟩
  · rintro before s after rfl
    have hbefore := (numbered_internAll before).givesRank s
    rw [← List.append_assoc]
    exact ⟨hbefore.shard, fun n hn => by rw [rank_concat, hbefore.place n hn],
      by rw [rank_concat, hbefore.fails]⟩
  · have hfirsts : ∀ i, firsts i (preset ++ ss) = firsts i (preset ++ ss') := by
      intro i
      rw [firsts_append, firsts_append, horder]
    refine ⟨?_, hss.agrees (numbered_internAll ss') hfirsts⟩
    rintro before s after before' after' rfl rfl
    -- The rank of a string is settled by its first call, so both calls give what a last one would.
    have hrank : rank (preset ++ before) s = rank (preset ++ before') s := by
      rw [← rank_concat (preset ++ before) s after, ← rank_concat (preset ++ before') s after',
        List.append_assoc, List.append_assoc, ← idxOf_firsts, ← idxOf_firsts, hfirsts]
    rw [(numbered_internAll before).intern_eq, (numbered_internAll before').intern_eq, hrank]

/-- The shard of `a` and `i` starts with `add` and `set-box!`, so that `a` comes third there and `i`
fourth, however their calls are mixed with those of other strings. -/
theorem interner_numbering_mixed :
    (∃ n, ((fresh.internAll ["a", "b"]).intern "i").1 = .ok n ∧ n.shard = 1 ∧ n.place = 3) ∧
    (fresh.internAll ["a", "b", "i", "a"]).Agrees
      (fresh.internAll ["b", "a", "add", "i", "b"]) := by
  obtain ⟨-, hcalls, -, hmixed⟩ := interner_numbering ["a", "b", "i", "a"]
  obtain ⟨hshard, hplace, hfails⟩ := hcalls ["a", "b"] "i" ["a"] rfl
  have hrank : rank (preset ++ ["a", "b", "i", "a"]) "i" = 3 := by decide
  refine ⟨?_, (hmixed ["b", "a", "add", "i", "b"] (by decide)).2⟩
  cases hi : ((fresh.internAll ["a", "b"]).intern "i").1 with
  | error e =>
    have hfull := hfails.1 ⟨e, hi⟩
    rw [hrank] at hfull
    exact absurd hfull (by decide)
  | ok n => exact ⟨n, rfl, hshard n hi, (hplace n hi).trans hrank⟩

end TreeMachine.Symbol
