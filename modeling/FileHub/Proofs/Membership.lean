import FileHub.Lib.LexRange
import FileHub.Proofs.NoFault

/-!
# What `ZsetExist` decides

The cache asks Redis for membership by a lexicographic range query, which Redis
answers as `ZSet.lexcount` says: it walks the set in its own order, by score
first, and compares members on the way. Where all scores are equal the two
orders are one and the answer is membership. The scores here are download
counts; as soon as two differ, a member is seen only if no member ranked before
it is above it by its bytes, and the member ranked last is not below it.
-/

namespace FileHub

open Lib

/-- Strings are ordered by their bytes. -/
instance : LinearOrder Bytes :=
  { (inferInstance : LE Bytes), (inferInstance : LT Bytes) with
    le_refl := Std.le_refl
    le_trans := fun _ _ _ => Std.le_trans
    le_antisymm := fun _ _ => Std.le_antisymm
    le_total := fun _ _ => Std.le_total
    lt_iff_le_not_ge := fun _ _ => Std.lt_iff_le_and_not_ge
    toDecidableLE := inferInstance
    compare := fun a b => compareOfLessAndEq a b }

namespace ZSet

theorem before_total (a b : Σ _ : Bytes, Int) : before a b ∨ before b a := by
  obtain hlt | heq | hgt := lt_trichotomy a.2 b.2
  · exact .inl (.inl hlt)
  · exact (le_total a.1 b.1).imp (fun h => .inr ⟨heq, h⟩) fun h => .inr ⟨heq.symm, h⟩
  · exact .inr (.inl hgt)

theorem before_trans {a b c : Σ _ : Bytes, Int} (hab : before a b) (hbc : before b c) :
    before a c := by
  obtain hab | ⟨hab, hab'⟩ := hab
  · obtain hbc | ⟨hbc, -⟩ := hbc
    · exact .inl (hab.trans hbc)
    · exact .inl (hbc ▸ hab)
  · obtain hbc | ⟨hbc, hbc'⟩ := hbc
    · exact .inl (hab ▸ hbc)
    · exact .inr ⟨hab.trans hbc, hab'.trans hbc'⟩

instance : Std.Total before := ⟨before_total⟩

instance : IsTrans _ before := ⟨fun _ _ _ => before_trans⟩

theorem pairwise_sorted (z : ZSet) : z.sorted.Pairwise before :=
  List.pairwise_insertionSort before _

/-- The members in the order of the set. -/
def ranked (z : ZSet) : List Bytes := z.sorted.map (·.1)

theorem ranked_perm (z : ZSet) : z.ranked.Perm z.keys :=
  (List.perm_insertionSort before z.entries).map _

theorem nodup_ranked (z : ZSet) : z.ranked.Nodup :=
  z.ranked_perm.nodup_iff.mpr z.nodupKeys

theorem mem_ranked {z : ZSet} {m : Bytes} : m ∈ z.ranked ↔ m ∈ z :=
  z.ranked_perm.mem_iff

/-- Where scores do not matter the order of the set is that of the bytes. -/
theorem pairwise_ranked {z : ZSet}
    (hz : ∀ e ∈ z.entries, ∀ e' ∈ z.entries, e.2 = e'.2) : z.ranked.Pairwise (· < ·) := by
  have hle : z.ranked.Pairwise (· ≤ ·) := by
    rw [ranked, List.pairwise_map]
    refine z.pairwise_sorted.imp_of_mem fun ha hb hab => ?_
    have hperm := List.perm_insertionSort before z.entries
    have hscore := hz _ (hperm.mem_iff.mp ha) _ (hperm.mem_iff.mp hb)
    obtain hlt | ⟨-, hle⟩ := hab
    · exact absurd hscore (ne_of_lt hlt)
    · exact hle
  exact (hle.and z.nodup_ranked).imp fun h => lt_of_le_of_ne h.1 h.2

/-- The answer of a Redis server to `ZLEXCOUNT key [m [m`. -/
def lexcount (z : ZSet) (m : Bytes) : ℕ := lexCount z.ranked m

theorem lexcount_eq_ite (z : ZSet) (m : Bytes) [Decidable (Found z.ranked m)] :
    z.lexcount m = if Found z.ranked m then 1 else 0 := by
  split
  · next h => exact lexCount_of_found z.nodup_ranked h
  · next h => exact (lexCount_eq_zero_iff z.nodup_ranked).mpr h

/-- Such a server keeps to what Redis promises on sets of equal scores. -/
theorem zlexcount_lexcount (z : ZSet) (m : Bytes) :
    zlexcount lexcount z m = z.lexcount m := by
  classical
  rw [zlexcount]
  split
  · next hz =>
      rw [lexcount_eq_ite]
      exact if_congr (mem_ranked.symm.trans (found_iff_mem (pairwise_ranked hz)).symm) rfl rfl
  · rfl

end ZSet

/-- `ZsetExist` tells whether the member is `Found`. -/
theorem CacheConn.ensures_zsetExist_lexcount {w : World} {E : World → Prop} {key m : Bytes}
    {z : ZSet} [Decidable (Found z.ranked (cStr m))] (hlex : w.lex = ZSet.lexcount)
    (hz : w.redis.zset? (cStr key) = some z) :
    Ensures E (fun ret _ => ret = if Found z.ranked (cStr m) then 1 else 0)
      (CacheConn.zsetExist ⟨true⟩ key m) w := by
  have hreply : w.reply (.zlexcount key m) = .integer (z.lexcount (cStr m)) := by
    simp only [World.reply, RedisCmd.format, Redis.exec, hz, hlex, ZSet.zlexcount_lexcount]
  rw [ensures_zsetExist, hreply, ZSet.lexcount_eq_ite]
  show ((if _ then 1 else 0 : ℕ) : Int) = _
  split <;> rfl

/-- The answer of `ZsetExist` is membership exactly where a member is `Found`
and nothing else is; the member looked up is the C string of the argument. -/
theorem CacheConn.zsetExist_iff {ω : ℕ → Ans} {w : World} {key m : Bytes} {z : ZSet}
    (hω : NoFail ω) (hlex : w.lex = ZSet.lexcount)
    (hz : w.redis.zset? (cStr key) = some z) :
    (runIn ω (CacheConn.zsetExist ⟨true⟩ key m) w).res = some (if m ∈ z then 1 else 0) ↔
      (m ∈ z ↔ Found z.ranked (cStr m)) := by
  classical
  obtain ⟨ret, hres, rfl⟩ := (CacheConn.ensures_zsetExist_lexcount hlex hz).returns hω
  rw [runIn, hres]
  by_cases hm : m ∈ z <;> by_cases hf : Found z.ranked (cStr m) <;> simp [hm, hf]

/-! Two shares, the second downloaded three times, the first five. -/

def twoShares : ZSet := ((∅ : ZSet).insert (ascii "a") 5).insert (ascii "b") 3

def twoSharesWorld : World :=
  { World.init ZSet.lexcount (fun _ => 0) with
    redis := Function.update (fun _ => none) (ascii "ranking") (some (.zset twoShares)) }

theorem zsetExist_twoShares :
    (runIn allSucceed (CacheConn.zsetExist ⟨true⟩ (ascii "ranking") (ascii "b"))
        twoSharesWorld).res = some (if ascii "b" ∈ twoShares then 1 else 0) ↔
      (ascii "b" ∈ twoShares ↔ Found twoShares.ranked (cStr (ascii "b"))) :=
  CacheConn.zsetExist_iff (fun _ => rfl) rfl rfl

/-- The first share is a member that is not seen. -/
theorem twoShares_unseen : ascii "a" ∈ twoShares ∧
    (runIn allSucceed (CacheConn.zsetExist ⟨true⟩ (ascii "ranking") (ascii "a"))
      twoSharesWorld).res = some 0 := by
  decide

end FileHub
