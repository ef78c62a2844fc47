import Mathlib.Data.List.DropRight
import Mathlib.Data.List.Dedup
import Mathlib.Tactic

/-! A list kept by recency: what is used moves to its end, and from its front falls what is beyond
    the capacity. However often anything was used before, the list is the last few distinct things
    used, in the order of their last use. `List.dedup` keeps last occurrences, so that is a closed
    form: `dedup`, and of it the end. -/

namespace Schemes.Lru

variable {K : Type}

/-! ### The end of a list -/

theorem rtake_of_length_le {cap : ℕ} {l : List K} (h : l.length ≤ cap) : l.rtake cap = l := by
  rw [List.rtake, Nat.sub_eq_zero_of_le h, List.drop_zero]

/-- What is long enough at the end is all that counts. -/
theorem rtake_append {cap : ℕ} (l : List K) {l' : List K} (h : cap ≤ l'.length) :
    (l ++ l').rtake cap = l'.rtake cap := by
  have hlength : (l ++ l').length - cap = l.length + (l'.length - cap) := by
    rw [List.length_append]
    omega
  rw [List.rtake, List.rtake, hlength, List.drop_append, List.drop_eq_nil_of_le (by omega)]
  simp

theorem length_rtake_le (cap : ℕ) (l : List K) : (l.rtake cap).length ≤ cap := by
  rw [List.rtake, List.length_drop]
  omega

theorem mem_of_mem_rtake {cap : ℕ} {l : List K} {k : K} (h : k ∈ l.rtake cap) : k ∈ l :=
  List.mem_of_mem_drop h

theorem nodup_rtake {cap : ℕ} {l : List K} (h : l.Nodup) : (l.rtake cap).Nodup :=
  h.sublist (List.drop_sublist _ l)

/-! ### Using one thing after another -/

variable [DecidableEq K]

/-- `k` is used: to the end with it, and off the front with all beyond `cap`. -/
def touch (cap : ℕ) (recency : List K) (k : K) : List K :=
  (recency.filter (· ≠ k) ++ [k]).rtake cap

theorem nodup_filter_concat {l : List K} (h : l.Nodup) (k : K) :
    (l.filter (· ≠ k) ++ [k]).Nodup := by
  refine List.nodup_append.mpr ⟨h.filter _, List.nodup_singleton k, ?_⟩
  intro a hmem b hk
  rw [List.mem_singleton.mp hk]
  simpa using (List.mem_filter.mp hmem).2

theorem nodup_touch {cap : ℕ} {recency : List K} (h : recency.Nodup) (k : K) :
    (touch cap recency k).Nodup := nodup_rtake (nodup_filter_concat h k)

/-- Taking one thing out of a list without duplicates costs at most one place. -/
theorem length_le_filter_concat {l : List K} (h : l.Nodup) (k : K) :
    l.length ≤ (l.filter (· ≠ k) ++ [k]).length := by
  have hfilter : l.filter (· ≠ k) = l.erase k := by
    rw [h.erase_eq_filter]
    refine List.filter_congr fun a _ => ?_
    rw [Bool.eq_iff_iff]
    simp
  rw [hfilter, List.length_append, List.length_erase, List.length_singleton]
  split <;> omega

/-- Nothing is lost by having dropped early what is beyond the capacity. -/
theorem touch_rtake {cap : ℕ} {l : List K} (h : l.Nodup) (k : K) :
    touch cap (l.rtake cap) k = (l.filter (· ≠ k) ++ [k]).rtake cap := by
  by_cases hlength : l.length ≤ cap
  · rw [rtake_of_length_le hlength, touch]
  · have hsplit : l = l.take (l.length - cap) ++ l.rtake cap := (List.take_append_drop _ l).symm
    have hcap : (l.rtake cap).length = cap := by
      rw [List.rtake, List.length_drop]
      omega
    have hend : cap ≤ ((l.rtake cap).filter (· ≠ k) ++ [k]).length :=
      hcap.symm.le.trans (length_le_filter_concat (nodup_rtake h) k)
    conv_rhs => rw [hsplit, List.filter_append, List.append_assoc, rtake_append _ hend]
    rfl

/-! ### What falls off -/

/-- Nothing, of what is listed already or where there is room. -/
theorem touch_room {cap : ℕ} {recency : List K} (hsize : recency.length ≤ cap) {k : K}
    (hroom : k ∈ recency ∨ recency.length < cap) :
    touch cap recency k = recency.filter (· ≠ k) ++ [k] := by
  refine rtake_of_length_le ?_
  have hfilter : (recency.filter (· ≠ k)).length ≤ recency.length := List.length_filter_le _ _
  rw [List.length_append, List.length_singleton]
  rcases hroom with hmem | hlt
  · have hless : (recency.filter (· ≠ k)).length < recency.length :=
      List.length_filter_lt_length_iff_exists.mpr ⟨k, hmem, by simp⟩
    omega
  · omega

/-- Else the oldest does, and no more. -/
theorem touch_full {cap : ℕ} {oldest : K} {recency : List K} (hsize : recency.length + 1 = cap)
    {k : K} (hnew : k ∉ oldest :: recency) : touch cap (oldest :: recency) k = recency ++ [k] := by
  have hkept : (oldest :: recency).filter (· ≠ k) = oldest :: recency := by
    rw [List.filter_eq_self]
    intro a hmem
    simpa using fun ha : a = k => hnew (ha ▸ hmem)
  rw [touch, hkept, List.cons_append, ← List.singleton_append, rtake_append [oldest] (by simp; omega)]
  exact rtake_of_length_le (by simp; omega)

/-- Of a kind that `k` is not of, using `k` costs none its place just where nothing falls off, or
    what does is not of the kind either. -/
theorem filter_touch_iff {cap : ℕ} (hcap : 0 < cap) {recency : List K}
    (hsize : recency.length ≤ cap) {k : K} {kind : K → Bool} (hk : kind k = false) :
    (touch cap recency k).filter kind = recency.filter kind ↔
      k ∈ recency ∨ recency.length < cap ∨
        ∀ oldest, recency.head? = some oldest → kind oldest = false := by
  by_cases hroom : k ∈ recency ∨ recency.length < cap
  · refine iff_of_true ?_ (hroom.imp_right .inl)
    rw [touch_room hsize hroom, List.filter_append, List.filter_filter]
    have hsame : recency.filter (fun a => kind a && decide (a ≠ k)) = recency.filter kind := by
      refine List.filter_congr fun a _ => ?_
      by_cases ha : a = k
      · simp [ha, hk]
      · simp [ha]
    rw [hsame]
    simp [hk]
  · rw [not_or, not_lt] at hroom
    obtain ⟨hnew, hfull⟩ := hroom
    cases recency with
    | nil => exact absurd (hcap.trans_le hfull) (lt_irrefl 0)
    | cons oldest recency =>
      have hlength : recency.length + 1 = cap := le_antisymm hsize hfull
      rw [touch_full hlength hnew, List.filter_append, List.filter_cons]
      simp only [hnew, List.length_cons, hlength, lt_irrefl, List.head?_cons, Option.some.injEq,
        false_or, forall_eq', List.filter_cons, hk, Bool.false_eq_true, if_false, List.filter_nil,
        List.append_nil]
      cases hoff : kind oldest with
      | false => simp
      | true =>
        simp only [if_true, Bool.true_eq_false, iff_false]
        intro heq
        have hmore := congrArg List.length heq
        rw [List.length_cons] at hmore
        omega

/-! ### A run of uses -/

theorem dedup_concat (k : K) : ∀ ks : List K,
    (ks ++ [k]).dedup = ks.dedup.filter (· ≠ k) ++ [k]
  | [] => rfl
  | a :: ks => by
    rw [List.cons_append, List.dedup_cons, List.dedup_cons, dedup_concat k ks]
    by_cases ha : a = k
    · subst ha
      by_cases hmem : a ∈ ks
      · simp [hmem]
      · simp [hmem]
    · by_cases hmem : a ∈ ks
      · simp [hmem]
      · simp [hmem, ha]

/-- STEP LEMMA: one more use. -/
theorem touch_dedup (cap : ℕ) (ks : List K) (k : K) :
    touch cap (ks.dedup.rtake cap) k = (ks ++ [k]).dedup.rtake cap := by
  rw [touch_rtake (List.nodup_dedup ks), dedup_concat]

/-- RUN LEMMA: after any uses the list is the last `cap` distinct things used. -/
theorem touch_run (cap : ℕ) (ks : List K) : ks.foldl (touch cap) [] = ks.dedup.rtake cap := by
  induction ks using List.reverseRecOn with
  | nil => simp
  | append_singleton ks k ih => rw [List.foldl_concat, ih, touch_dedup]

end Schemes.Lru
