import Mathlib.Algebra.BigOperators.Ring.List
import Mathlib.Algebra.Ring.Nat
import Mathlib.Order.CompletePartialOrder
import Mathlib.Order.Interval.Set.Disjoint
import Mathlib.Data.List.Induction
import StackFront.Proofs.Memory.Allocation
import StackFront.Proofs.Memory.Rounding

/-!
# Regions never overlap

An arena keeps one region for each name, the youngest. What it has handed out is more than that: a
name can be allocated again, and the older region keeps its bytes, under a name that it has lost. So
the regions are followed along the history of an arena, as *grants*, and not in its table.

The layout is read off the sizes. A region begins where the regions before it end, each taken up to
a multiple of the alignment; this is their `extent`, a natural number. As long as it fits into a
word it is what the arena has reserved, and the first allocation that takes it further is a fault.

* `LaidOut` is the invariant along a history, and `LaidOut.grant` its preservation by one
  allocation.
* `extent_append` cuts the extent at a region, from which the order of any two regions follows.
* `Packed` is what a history makes of the layout, and `regions_never_overlap` the result.
-/

namespace StackFront

/-- **What an arena is asked for.** -/
structure Request where
  name : String
  size : UInt64

/-- **A grant**: a request, with the region that was handed out for it. -/
structure Grant where
  request : Request
  region : Region

namespace Grant

/-- Where the region of a grant begins, in natural numbers. -/
def offset (g : Grant) : Nat := g.region.offset.toNat

/-- How many bytes were asked for, in natural numbers. -/
def size (g : Grant) : Nat := g.request.size.toNat

/-- The bytes of a grant, as many as were asked for. -/
def bytes (g : Grant) : Set Nat := Set.Ico g.offset (g.offset + g.size)

end Grant

namespace Arena

/-! ### Histories -/

/-- Allocates a region, and adds the grant to those before it. -/
def grant (history : List Grant × Arena) (r : Request) : Step (List Grant × Arena) := do
  let (region, a) ← history.2.allocate r.name r.size
  return (history.1 ++ [⟨r, region⟩], a)

/-- **Allocates regions one after the other.** -/
def grantAll (a : Arena) (requests : List Request) : Step (List Grant × Arena) :=
  requests.foldlM grant ([], a)

/-- **How far requests reach**, each taken up to a multiple of the alignment. -/
def extent (unit : Nat) (requests : List Request) : Nat :=
  (requests.map fun r => Word.ceil unit r.size.toNat).sum

variable {owner : ArenaOwner} {alignment : UInt64} {unit : Nat} {a a₀ : Arena} {f : Log.Filter}
  {requests : List Request} {grants : List Grant} {r : Request} {reserved : UInt64}

theorem extent_append (unit : Nat) (before after : List Request) :
    extent unit (before ++ after) = extent unit before + extent unit after := by
  unfold extent
  rw [List.map_append, List.sum_append]

theorem extent_singleton (unit : Nat) (r : Request) :
    extent unit [r] = Word.ceil unit r.size.toNat := by
  unfold extent
  rw [List.map_singleton, List.sum_singleton]

theorem extent_cons (unit : Nat) (r : Request) (requests : List Request) :
    extent unit (r :: requests) = Word.ceil unit r.size.toNat + extent unit requests := by
  unfold extent
  rw [List.map_cons, List.sum_cons]

/-- The extent is made of whole units. -/
theorem dvd_extent (hu : 0 < unit) (requests : List Request) : unit ∣ extent unit requests := by
  refine List.dvd_sum fun m hm => ?_
  obtain ⟨r, -, rfl⟩ := List.mem_map.mp hm
  exact (Word.ceil_isLeast hu r.size.toNat).1.1

/-- Requests reach anywhere if one of them asks for a byte. -/
theorem extent_pos_iff (hu : 0 < unit) (requests : List Request) :
    0 < extent unit requests ↔ ∃ r ∈ requests, r.size ≠ 0 := by
  induction requests with
  | nil => simp [extent]
  | cons r requests ih =>
    have hsize : r.size ≠ 0 ↔ 0 < Word.ceil unit r.size.toNat := by
      rw [Word.ceil_pos_iff hu, Nat.pos_iff_ne_zero, ne_eq, ne_eq, ← UInt64.toNat_inj]
      rfl
    rw [extent_cons, List.exists_mem_cons_iff, hsize, ← ih]
    omega

/-! ### The invariant -/

/-- **What an arena has handed out**, in the order of the grants. -/
structure LaidOut (owner : ArenaOwner) (alignment : UInt64) (grants : List Grant) (a : Arena) :
    Prop where
  owner_eq : a.owner = owner
  alignment_eq : a.alignment = alignment
  reserved_eq : a.reserved.toNat = extent alignment.toNat (grants.map Grant.request)
  /-- A region begins where those before it end. -/
  offset_eq : ∀ (before : List Grant) (g : Grant) (after : List Grant),
    grants = before ++ g :: after → g.offset = extent alignment.toNat (before.map Grant.request)
  region_owner : ∀ g ∈ grants, g.region.owner = owner
  region_name : ∀ g ∈ grants, g.region.name = g.request.name
  /-- A name stands for the youngest of its regions. -/
  get?_eq : ∀ name, a.get? name =
    (grants.reverse.find? fun g => g.region.name = name).map Grant.region

theorem LaidOut.empty (owner : ArenaOwner) (alignment : UInt64) :
    LaidOut owner alignment [] ⟨owner, alignment, 0, ∅⟩ where
  owner_eq := rfl
  alignment_eq := rfl
  reserved_eq := rfl
  offset_eq := fun before g after h => by simp at h
  region_owner := fun g hg => by cases hg
  region_name := fun g hg => by cases hg
  get?_eq := fun _ => rfl

/-- Where an allocation ends in a fault, by its result. -/
theorem exists_result_allocate_iff (h : Word.isPowerOfTwo a.alignment = true) {name : String}
    {size : UInt64} :
    (∃ e, ((a.allocate name size).run f).result = .error e) ↔
      2 ^ 64 - 1 < a.reserved.toNat + Word.ceil a.alignment.toNat size.toNat := by
  have hfault : (∃ e, ((a.allocate name size).run f).result = .error e) ↔
      ∃ e, a.advance size = .error e := by
    rw [result_allocate]
    rcases a.advance size with e | reserved <;> simp [Except.map]
  rw [hfault]
  simp only [advance_eq_error_iff h, exists_eq_left]

/-- **One allocation** lays out one region more. -/
theorem LaidOut.grant (h : LaidOut owner alignment grants a)
    (ha : Word.isPowerOfTwo alignment = true) (hr : a.advance r.size = .ok reserved) :
    LaidOut owner alignment (grants ++ [⟨r, a.nextRegion r.name⟩])
      (a.extended r.name reserved) := by
  have hreserved := (advance_eq_ok_iff (h.alignment_eq ▸ ha)).mp hr
  rw [h.alignment_eq] at hreserved
  refine ⟨h.owner_eq, h.alignment_eq, ?_, ?_, ?_, ?_, ?_⟩
  · show reserved.toNat = _
    rw [hreserved, h.reserved_eq, List.map_append, extent_append, List.map_singleton,
      extent_singleton]
  · intro before g after hsplit
    rcases after.eq_nil_or_concat with rfl | ⟨init, last, rfl⟩
    · -- the region that is handed out last begins where the reserved part ended
      obtain ⟨rfl, hg⟩ := List.append_inj' hsplit rfl
      obtain ⟨rfl, -⟩ := List.cons.inj hg
      exact h.reserved_eq
    · -- the regions before it are where they were
      rw [List.concat_eq_append, ← List.cons_append, ← List.append_assoc] at hsplit
      obtain ⟨hsplit, -⟩ := List.append_inj' hsplit rfl
      exact h.offset_eq before g init hsplit
  · intro g hg
    rcases List.mem_append.mp hg with hg | hg
    · exact h.region_owner g hg
    · rw [List.mem_singleton.mp hg]
      exact h.owner_eq
  · intro g hg
    rcases List.mem_append.mp hg with hg | hg
    · exact h.region_name g hg
    · rw [List.mem_singleton.mp hg]
      rfl
  · intro name
    rw [get?_extended, h.get?_eq, List.reverse_append, List.reverse_singleton,
      List.singleton_append, List.find?_cons]
    by_cases hname : r.name = name
    · -- the region that is handed out last is the youngest of its name
      rw [if_pos hname]
      simp [nextRegion, hname]
    · rw [if_neg hname]
      simp [nextRegion, hname]

/-! ### Runs -/

/-- One more request is granted after the others. -/
theorem result_grantAll_append (h : ((a₀.grantAll requests).run f).result = .ok (grants, a))
    (r : Request) :
    ((a₀.grantAll (requests ++ [r])).run f).result = (a.advance r.size).map fun reserved =>
      (grants ++ [⟨r, a.nextRegion r.name⟩], a.extended r.name reserved) := by
  unfold grantAll at h ⊢
  rw [List.foldlM_append, Step.result_bind, h, ok_bind, List.foldlM_cons, Step.result_bind]
  show ((grant (grants, a) r).run f).result >>= _ = _
  rw [grant, Step.result_bind, result_allocate]
  rcases a.advance r.size with e | reserved <;> rfl

/-- **A run** grants what it is asked for, unless that reaches past the last word. -/
theorem grantAll_cases (h₀ : a₀ = ⟨owner, alignment, 0, ∅⟩)
    (ha : Word.isPowerOfTwo alignment = true) (f : Log.Filter) (requests : List Request) :
    (extent alignment.toNat requests ≤ 2 ^ 64 - 1 ∧ ∃ grants a,
        ((a₀.grantAll requests).run f).result = .ok (grants, a) ∧
        grants.map Grant.request = requests ∧ LaidOut owner alignment grants a) ∨
      (2 ^ 64 - 1 < extent alignment.toNat requests ∧
        ((a₀.grantAll requests).run f).result = .error .addOverflow) := by
  induction requests using List.reverseRecOn with
  | nil =>
    subst h₀
    exact .inl ⟨Nat.zero_le _, [], _, rfl, rfl, .empty owner alignment⟩
  | append_singleton requests r ih =>
    have hextent : extent alignment.toNat (requests ++ [r]) =
        extent alignment.toNat requests + Word.ceil alignment.toNat r.size.toNat := by
      rw [extent_append, extent_singleton]
    rcases ih with ⟨-, grants, a, hrun, hrequests, hlaid⟩ | ⟨hpast, hrun⟩
    · have ha' : Word.isPowerOfTwo a.alignment = true := hlaid.alignment_eq ▸ ha
      have hreach : extent alignment.toNat (requests ++ [r]) =
          a.reserved.toNat + Word.ceil a.alignment.toNat r.size.toNat := by
        rw [hextent, hlaid.reserved_eq, hrequests, hlaid.alignment_eq]
      rw [result_grantAll_append hrun]
      rcases hadvance : a.advance r.size with e | reserved
      · obtain ⟨rfl, hpast⟩ := (advance_eq_error_iff ha').mp hadvance
        exact .inr ⟨hreach ▸ hpast, rfl⟩
      · have hlt := reserved.toNat_lt
        rw [(advance_eq_ok_iff ha').mp hadvance] at hlt
        refine .inl ⟨by omega, _, _, rfl, ?_, hlaid.grant ha hadvance⟩
        rw [List.map_append, hrequests]
        rfl
    · -- where the run has ended, it does not go on
      refine .inr ⟨by omega, ?_⟩
      unfold grantAll at hrun ⊢
      rw [List.foldlM_append, Step.result_bind, hrun]
      rfl

/-! ### The layout -/

/-- What holds of an entry of a list and every later one holds of any two. -/
theorem pairwise_of_forall_split {α : Type} {R : α → α → Prop} {l : List α}
    (h : ∀ (before : List α) (x : α) (between : List α) (y : α) (after : List α),
      l = before ++ x :: between ++ y :: after → R x y) :
    l.Pairwise R := by
  induction l with
  | nil => exact .nil
  | cons x l ih =>
    refine .cons (fun y hy => ?_) (ih fun before x' between y after hl => ?_)
    · obtain ⟨between, after, rfl⟩ := List.append_of_mem hy
      exact h [] x between y after rfl
    · exact h (x :: before) x' between y after (by rw [hl]; rfl)

/-- **The layout of an arena**: what it has handed out, and what its names stand for. -/
structure Packed (owner : ArenaOwner) (alignment : UInt64) (grants : List Grant) (a : Arena) :
    Prop where
  /-- A region begins where those before it end, each taken up to a multiple of the alignment. -/
  offset_eq : ∀ (before : List Grant) (g : Grant) (after : List Grant),
    grants = before ++ g :: after → g.offset = extent alignment.toNat (before.map Grant.request)
  dvd_offset : ∀ g ∈ grants, alignment.toNat ∣ g.offset
  dvd_reserved : alignment.toNat ∣ a.reserved.toNat
  disjoint : grants.Pairwise fun g h => Disjoint g.bytes h.bytes
  within : ∀ g ∈ grants, g.bytes ⊆ Set.Ico 0 a.reserved.toNat
  /-- A later region does not begin before an earlier one. It begins behind it if the earlier one,
  or one between the two, has a byte. -/
  ordered : ∀ (before : List Grant) (g : Grant) (between : List Grant) (h : Grant)
      (after : List Grant), grants = before ++ g :: between ++ h :: after →
    g.offset ≤ h.offset ∧ (g.offset < h.offset ↔ ∃ k ∈ g :: between, k.request.size ≠ 0)
  get?_eq : ∀ name, a.get? name =
    (grants.reverse.find? fun g => g.region.name = name).map Grant.region
  region_name : ∀ g ∈ grants, g.region.name = g.request.name
  region_owner : ∀ g ∈ grants, g.region.owner = owner

theorem LaidOut.packed (h : LaidOut owner alignment grants a)
    (ha : Word.isPowerOfTwo alignment = true) : Packed owner alignment grants a := by
  have hpos : 0 < alignment.toNat := Word.pos_of_isPowerOfTwo ha
  have hsize : ∀ g : Grant, g.size ≤ Word.ceil alignment.toNat g.request.size.toNat :=
    fun g => (Word.ceil_isLeast hpos _).1.2
  -- the distance of two regions is the extent of what has been granted from one to the other
  have hdistance : ∀ (before : List Grant) (g : Grant) (between : List Grant) (h : Grant)
      (after : List Grant), grants = before ++ g :: between ++ h :: after →
      h.offset = g.offset + extent alignment.toNat ((g :: between).map Grant.request) := by
    intro before g between h' after hsplit
    have hg := h.offset_eq before g (between ++ h' :: after) (by rw [hsplit]; simp)
    have hh := h.offset_eq (before ++ g :: between) h' after hsplit
    rw [hh, hg, List.map_append, extent_append]
  refine ⟨h.offset_eq, ?_, ?_, ?_, ?_, ?_, h.get?_eq, h.region_name, h.region_owner⟩
  · intro g hg
    obtain ⟨before, after, hsplit⟩ := List.append_of_mem hg
    rw [h.offset_eq before g after hsplit]
    exact dvd_extent hpos _
  · rw [h.reserved_eq]
    exact dvd_extent hpos _
  · refine pairwise_of_forall_split fun before g between h' after hsplit => ?_
    have hend : g.offset + g.size ≤ h'.offset := by
      rw [hdistance before g between h' after hsplit, List.map_cons, extent_cons]
      have := hsize g
      omega
    refine Set.disjoint_left.mpr fun i hi hi' => ?_
    exact absurd (Nat.lt_of_lt_of_le hi.2 hend) (Nat.not_lt_of_le hi'.1)
  · intro g hg i hi
    obtain ⟨before, after, hsplit⟩ := List.append_of_mem hg
    have hend : g.offset + g.size ≤ a.reserved.toNat := by
      rw [h.offset_eq before g after hsplit, h.reserved_eq, hsplit, List.map_append, extent_append,
        List.map_cons, extent_cons]
      have := hsize g
      omega
    exact ⟨Nat.zero_le i, Nat.lt_of_lt_of_le hi.2 hend⟩
  · intro before g between h' after hsplit
    have hd := hdistance before g between h' after hsplit
    have hbyte := extent_pos_iff hpos ((g :: between).map Grant.request)
    simp only [List.mem_map, exists_exists_and_eq_and] at hbyte
    rw [← hbyte]
    omega

/-- **Regions never overlap.** Whatever an arena is asked for one after the other, under new names
and old ones, in sizes that may be zero: the regions follow one another, each at a multiple of the
alignment and in as many multiples of it as hold its size, they have no byte in common and lie in
what is reserved; and the name of a region stands for the youngest. This goes on until a request
reaches past the last word, which is the only fault. -/
theorem regions_never_overlap (k : Nat) (hk : alignment.toNat = 2 ^ k) (owner : ArenaOwner)
    (f : Log.Filter) :
    (∀ n, IsLeast {m | alignment.toNat ∣ m ∧ n ≤ m} (Word.ceil alignment.toNat n)) ∧
      ∃ a₀, create owner alignment = .ok a₀ ∧ ∀ requests,
        ((∃ e, ((a₀.grantAll requests).run f).result = .error e) ↔
          2 ^ 64 - 1 < extent alignment.toNat requests) ∧
        ∀ grants a, ((a₀.grantAll requests).run f).result = .ok (grants, a) →
          grants.map Grant.request = requests ∧ Packed owner alignment grants a ∧
          ∀ name size, (∃ e, ((a.allocate name size).run f).result = .error e) ↔
            2 ^ 64 - 1 < a.reserved.toNat + Word.ceil alignment.toNat size.toNat := by
  have ha : Word.isPowerOfTwo alignment = true := Word.isPowerOfTwo_iff.mpr ⟨k, hk⟩
  refine ⟨Word.ceil_isLeast (Word.pos_of_isPowerOfTwo ha), _, create_eq_ok_iff.mpr ⟨ha, rfl⟩,
    fun requests => ?_⟩
  rcases grantAll_cases rfl ha f requests with
    ⟨hfits, grants, a, hrun, hrequests, hlaid⟩ | ⟨hpast, hrun⟩
  · refine ⟨?_, ?_⟩
    · rw [hrun]
      exact iff_of_false (by simp) (by omega)
    · intro grants' a' hrun'
      obtain ⟨rfl, rfl⟩ := Prod.mk.inj (Except.ok.inj (hrun.symm.trans hrun'))
      refine ⟨hrequests, hlaid.packed ha, fun name size => ?_⟩
      rw [← hlaid.alignment_eq]
      exact exists_result_allocate_iff (hlaid.alignment_eq ▸ ha)
  · refine ⟨iff_of_true ⟨_, hrun⟩ hpast, fun grants a hrun' => ?_⟩
    rw [hrun] at hrun'
    cases hrun'

/-- The two regions of a buffer that is allocated a second time have no byte in common, although
nothing but an empty region lies between them. What is asked for next may be too large without any
rounding. -/
theorem second_buffer_keeps_clear :
    ∃ a₀ first rest second a, create .global 8 = .ok a₀ ∧
      ((a₀.grantAll [⟨"buffer", 1⟩, ⟨"mark", 0⟩, ⟨"buffer", 13⟩]).run .off).result =
        .ok (first :: rest :: [second], a) ∧
      first.offset = 0 ∧ second.offset = 8 ∧ a.reserved = 24 ∧
      a.get? "buffer" = some second.region ∧
      Disjoint first.bytes second.bytes ∧
      ∃ e, ((a.allocate "heap" 0xfffffffffffffff0).run .off).result = .error e := by
  obtain ⟨-, a₀, hcreate, hall⟩ := @regions_never_overlap 8 3 (by decide) .global .off
  obtain rfl := Except.ok.inj hcreate
  obtain ⟨-, hpacked⟩ := hall [⟨"buffer", 1⟩, ⟨"mark", 0⟩, ⟨"buffer", 13⟩]
  obtain ⟨-, hlayout, hfault⟩ := hpacked _ _ rfl
  refine ⟨_, _, _, _, _, rfl, rfl, by decide, by decide, by decide, ?_, ?_, ?_⟩
  · exact hlayout.get?_eq "buffer"
  · exact List.rel_of_pairwise_cons hlayout.disjoint (by simp)
  · exact (hfault "heap" _).mpr (by decide)

end Arena

end StackFront
