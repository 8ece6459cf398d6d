import FinChain.Lib.Exec
import Mathlib.Algebra.Order.Group.Nat
import Mathlib.Data.UInt

/-!
# Extensions of operations

An `extension<T>` is a struct whose members are all optional. It is packed as the number of members that are
present, and then for each of them its index and its value, in the order in which `FC_REFLECT` names the members.
What reads it is a visitor of the members in the same order, which has always read the next index already
(`next_which`) and takes a value when the index is that of the member it visits. As the indices of the members only
grow, an index that is unknown, or that comes again or too late, is never the one of a member that is still to be visited.
The visitor then leaves it, and everything behind it, and finds at the end that not all members it was promised have come.

How a number and the values of the members are packed is a parameter (`Codec`). All that is known of it is that it
reads what it has written. `Stored` says what a stream holds, in terms of what these codecs read from it, and
a stream is unpacked without error exactly when it holds the value that is returned (`unpack_ok_iff`).
-/

namespace FinChain.Protocol

variable {ε : Type}

/-- `fc::raw::pack` and `fc::raw::unpack` for one type. A stream is the list of the bytes that are still to be read. -/
structure Codec (ε α : Type) where
  pack : α → List UInt8
  unpack : List UInt8 → Except ε (α × List UInt8)
  unpack_pack : ∀ v rest, unpack (pack v ++ rest) = .ok (v, rest)

/-- There is only one way to pack a value. -/
def Codec.Canonical {α : Type} (c : Codec ε α) : Prop :=
  ∀ ⦃s v rest⦄, c.unpack s = .ok (v, rest) → s = c.pack v ++ rest

/-- An `optional` member of a struct. -/
structure ExtMember (ε : Type) where
  Value : Type
  codec : Codec ε Value

/-- A struct of optional members. Their number fits the counters of the visitors, as `FC_REFLECT` names at most 256 of
them. -/
structure ExtStruct (ε : Type) where
  members : List (ExtMember ε)
  length_lt : members.length < 2 ^ 32

/-- The values of the members, in the order of `FC_REFLECT`. -/
def ExtFields : List (ExtMember ε) → Type
  | [] => Unit
  | m :: ms => Option m.Value × ExtFields ms

/-- `graphene_extension_pack_count_visitor` -/
def packCount : (ms : List (ExtMember ε)) → ExtFields ms → UInt32 → UInt32
  | [], _, count => count
  | _ :: ms, (value, values), count => packCount ms values (count + if value.isSome then 1 else 0)

/-- `graphene_extension_pack_read_visitor`. What it packs comes behind what is in the stream. -/
def packRead (unsignedInt : Codec ε UInt32) :
    (ms : List (ExtMember ε)) → ExtFields ms → UInt32 → List UInt8 → List UInt8
  | [], _, _, stream => stream
  | m :: ms, (some value, values), which, stream =>
    packRead unsignedInt ms values (which + 1) (stream ++ unsignedInt.pack which ++ m.codec.pack value)
  | _ :: ms, (none, values), which, stream => packRead unsignedInt ms values (which + 1) stream

/-- `operator<<` -/
def packExtension (unsignedInt : Codec ε UInt32) (T : ExtStruct ε) (value : ExtFields T.members) : List UInt8 :=
  packRead unsignedInt T.members value 0 (unsignedInt.pack (packCount T.members value 0))

/-- `graphene_extension_unpack_visitor` -/
structure UnpackVisitor where
  which : UInt32
  nextWhich : UInt32
  countLeft : UInt32
  stream : List UInt8

/-- Why an extension is not unpacked. -/
inductive UnpackError (ε : Type)
  /-- A number or a value cannot be read. -/
  | raw (e : ε)
  /-- `FC_ASSERT( vtor.count_left == 0 )` -/
  | unrecognized

namespace UnpackVisitor

variable (unsignedInt : Codec ε UInt32)

def maybeReadNextWhich (vtor : UnpackVisitor) : Except ε UnpackVisitor :=
  if 0 < vtor.countLeft then do
    let (w, stream) ← unsignedInt.unpack vtor.stream
    .ok { vtor with nextWhich := w, stream := stream }
  else .ok vtor

/-- `operator()` -/
def visitMember (m : ExtMember ε) (vtor : UnpackVisitor) : Except ε (Option m.Value × UnpackVisitor) :=
  if 0 < vtor.countLeft ∧ vtor.which = vtor.nextWhich then do
    let (temp, stream) ← m.codec.unpack vtor.stream
    let vtor ← maybeReadNextWhich unsignedInt { vtor with stream := stream, countLeft := vtor.countLeft - 1 }
    .ok (some temp, { vtor with which := vtor.which + 1 })
  else .ok (none, { vtor with which := vtor.which + 1 })

/-- `fc::reflector<T>::visit` -/
def visit : (ms : List (ExtMember ε)) → UnpackVisitor → Except ε (ExtFields ms × UnpackVisitor)
  | [], vtor => .ok ((), vtor)
  | m :: ms, vtor => do
    let (value, vtor) ← visitMember unsignedInt m vtor
    let (values, vtor) ← visit ms vtor
    .ok ((value, values), vtor)

/-- A visitor before it has read the first index. -/
def start (which countLeft : UInt32) (stream : List UInt8) : UnpackVisitor :=
  { which := which, nextWhich := 0, countLeft := countLeft, stream := stream }

end UnpackVisitor

open UnpackVisitor

/-- The constructor of the visitor, and then its way through the members. -/
def unpackMembers (unsignedInt : Codec ε UInt32) (ms : List (ExtMember ε)) (stream : List UInt8) :
    Except ε (ExtFields ms × UnpackVisitor) := do
  let (c, stream) ← unsignedInt.unpack stream
  let vtor ← maybeReadNextWhich unsignedInt (start 0 c stream)
  visit unsignedInt ms vtor

/-- `operator>>` -/
def unpackExtension (unsignedInt : Codec ε UInt32) (T : ExtStruct ε) (stream : List UInt8) :
    Except (UnpackError ε) (ExtFields T.members × List UInt8) :=
  match unpackMembers unsignedInt T.members stream with
  | .error e => .error (.raw e)
  | .ok (value, vtor) => if vtor.countLeft = 0 then .ok (value, vtor.stream) else .error .unrecognized

/-! ### What a stream holds -/

/-- The number of members that are present. -/
def present : (ms : List (ExtMember ε)) → ExtFields ms → ℕ
  | [], _ => 0
  | _ :: ms, (value, values) => present ms values + if value.isSome then 1 else 0

/-- The stream holds the members that are present, each with its index before its value, and then `rest`. The first
of the members has the index `which`. -/
def Stored (unsignedInt : Codec ε UInt32) :
    (ms : List (ExtMember ε)) → ExtFields ms → ℕ → List UInt8 → List UInt8 → Prop
  | [], _, _, stream, rest => stream = rest
  | _ :: ms, (none, values), which, stream, rest => Stored unsignedInt ms values (which + 1) stream rest
  | m :: ms, (some value, values), which, stream, rest =>
    ∃ s s', unsignedInt.unpack stream = .ok (UInt32.ofNat which, s) ∧ m.codec.unpack s = .ok (value, s') ∧
      Stored unsignedInt ms values (which + 1) s' rest

theorem present_le_length : ∀ {ms : List (ExtMember ε)} (values : ExtFields ms), present ms values ≤ ms.length
  | [], _ => le_rfl
  | _ :: ms, (none, values) => Nat.le_succ_of_le (show present ms values ≤ ms.length from present_le_length values)
  | _ :: ms, (some _, values) => Nat.succ_le_succ (show present ms values ≤ ms.length from present_le_length values)

variable {unsignedInt : Codec ε UInt32} {ms : List (ExtMember ε)} {which : ℕ} {stream rest : List UInt8}

/-- The next index in the stream is one of a member that is still to come. -/
theorem Stored.next_index {values : ExtFields ms} (h : Stored unsignedInt ms values which stream rest)
    (hpresent : 0 < present ms values) :
    ∃ tag s, unsignedInt.unpack stream = .ok (UInt32.ofNat tag, s) ∧ which ≤ tag ∧ tag < which + ms.length := by
  induction ms generalizing which with
  | nil => exact absurd hpresent (Nat.lt_irrefl 0)
  | cons m ms ih =>
    rw [List.length_cons]
    rcases values with ⟨_ | value, values⟩
    · obtain ⟨tag, s, hindex, hle, hlt⟩ := ih h hpresent
      exact ⟨tag, s, hindex, by omega, by omega⟩
    · obtain ⟨s, -, hindex, -, -⟩ := h
      exact ⟨which, s, hindex, le_rfl, by omega⟩

/-! ### The look-ahead -/

namespace UnpackVisitor

/-- Nothing is left, or the next index is read. -/
theorem maybeReadNextWhich_eq_ok {vtor vtor' : UnpackVisitor} :
    maybeReadNextWhich unsignedInt vtor = .ok vtor' ↔
      vtor.countLeft = 0 ∧ vtor' = vtor ∨
        0 < vtor.countLeft ∧ ∃ w s, unsignedInt.unpack vtor.stream = .ok (w, s) ∧
          vtor' = { vtor with nextWhich := w, stream := s } := by
  rcases Nat.eq_zero_or_pos vtor.countLeft.toNat with h | h
  · have hzero : vtor.countLeft = 0 := UInt32.toNat_inj.mp h
    simp [maybeReadNextWhich, hzero, eq_comm]
  · have hpos : 0 < vtor.countLeft := UInt32.lt_iff_toNat_lt.mpr h
    have hne : vtor.countLeft ≠ 0 := fun hzero => absurd h (by simp [hzero])
    rw [maybeReadNextWhich, if_pos hpos, Exec.except_bind_eq_ok]
    simp [hne, hpos, eq_comm]

/-- Reading the next index has nothing to do with the member that is visited. -/
theorem maybeReadNextWhich_which {vtor vtor' : UnpackVisitor} (h : maybeReadNextWhich unsignedInt vtor = .ok vtor')
    (which : UInt32) :
    maybeReadNextWhich unsignedInt { vtor with which := which } = .ok { vtor' with which := which } := by
  rw [maybeReadNextWhich_eq_ok] at h ⊢
  rcases h with ⟨hzero, rfl⟩ | ⟨hpos, w, s, hread, rfl⟩
  · exact .inl ⟨hzero, rfl⟩
  · exact .inr ⟨hpos, w, s, hread, rfl⟩

theorem which_maybeReadNextWhich {vtor vtor' : UnpackVisitor} (h : maybeReadNextWhich unsignedInt vtor = .ok vtor') :
    vtor'.which = vtor.which := by
  rcases maybeReadNextWhich_eq_ok.mp h with ⟨-, rfl⟩ | ⟨-, w, s, -, rfl⟩ <;> rfl

theorem ofNat_injective {a b : ℕ} (ha : a < 2 ^ 32) (hb : b < 2 ^ 32) (h : UInt32.ofNat a = UInt32.ofNat b) : a = b := by
  rw [← UInt32.toNat_ofNat_of_lt' ha, ← UInt32.toNat_ofNat_of_lt' hb, h]

theorem toNat_sub_one {c : UInt32} (h : 0 < c) : (c - 1).toNat + 1 = c.toNat := by
  have hpos : 1 ≤ c.toNat := UInt32.lt_iff_toNat_lt.mp h
  have hone : (1 : UInt32) ≤ c := UInt32.le_iff_toNat_le.mpr hpos
  rw [UInt32.toNat_sub_of_le c 1 hone]
  exact Nat.sub_add_cancel hpos

/-- What the visitor of a member does when the member is present. -/
theorem visitMember_eq_some {m : ExtMember ε} {vtor vtor' : UnpackVisitor} {value : m.Value} :
    visitMember unsignedInt m vtor = .ok (some value, vtor') ↔
      (0 < vtor.countLeft ∧ vtor.which = vtor.nextWhich) ∧
        ∃ s vtor'', m.codec.unpack vtor.stream = .ok (value, s) ∧
          maybeReadNextWhich unsignedInt { vtor with stream := s, countLeft := vtor.countLeft - 1 } = .ok vtor'' ∧
          vtor' = { vtor'' with which := vtor''.which + 1 } := by
  by_cases h : 0 < vtor.countLeft ∧ vtor.which = vtor.nextWhich
  · rw [visitMember, if_pos h, Exec.except_bind_eq_ok]
    constructor
    · rintro ⟨⟨temp, s⟩, hvalue, hrest⟩
      obtain ⟨vtor'', hread, hdone⟩ := Exec.except_bind_eq_ok.mp hrest
      rw [Except.ok.injEq, Prod.mk.injEq, Option.some.injEq] at hdone
      exact ⟨h, s, vtor'', hdone.1 ▸ hvalue, hread, hdone.2.symm⟩
    · rintro ⟨-, s, vtor'', hvalue, hread, rfl⟩
      exact ⟨(value, s), hvalue, Exec.except_bind_eq_ok.mpr ⟨vtor'', hread, rfl⟩⟩
  · rw [visitMember, if_neg h]
    simp [h]

/-- What the visitor of a member does when the member is absent. -/
theorem visitMember_eq_none {m : ExtMember ε} {vtor vtor' : UnpackVisitor} :
    visitMember unsignedInt m vtor = .ok (none, vtor') ↔
      ¬ (0 < vtor.countLeft ∧ vtor.which = vtor.nextWhich) ∧ vtor' = { vtor with which := vtor.which + 1 } := by
  by_cases h : 0 < vtor.countLeft ∧ vtor.which = vtor.nextWhich
  · rw [visitMember, if_pos h, Exec.except_bind_eq_ok]
    refine iff_of_false ?_ (fun hne => hne.1 h)
    rintro ⟨⟨temp, s⟩, -, hrest⟩
    obtain ⟨vtor'', -, hdone⟩ := Exec.except_bind_eq_ok.mp hrest
    exact absurd hdone (by simp)
  · rw [visitMember, if_neg h]
    simp [h, eq_comm]

theorem visit_cons {m : ExtMember ε} {ms : List (ExtMember ε)} {vtor vtor' : UnpackVisitor}
    {value : Option m.Value} {values : ExtFields ms} :
    visit unsignedInt (m :: ms) vtor = .ok ((value, values), vtor') ↔
      ∃ vtor'', visitMember unsignedInt m vtor = .ok (value, vtor'') ∧
        visit unsignedInt ms vtor'' = .ok (values, vtor') := by
  rw [visit, Exec.except_bind_eq_ok]
  constructor
  · rintro ⟨⟨value', vtor''⟩, hmember, hrest⟩
    obtain ⟨⟨values', vtor₂⟩, hmembers, hdone⟩ := Exec.except_bind_eq_ok.mp hrest
    obtain ⟨hvalues, rfl⟩ := Prod.mk.inj (Except.ok.inj hdone)
    obtain ⟨rfl, rfl⟩ := Prod.mk.inj hvalues
    exact ⟨vtor'', hmember, hmembers⟩
  · rintro ⟨vtor'', hmember, hmembers⟩
    exact ⟨(value, vtor''), hmember, Exec.except_bind_eq_ok.mpr ⟨(values, vtor'), hmembers, rfl⟩⟩

end UnpackVisitor

/-! ### Unpacking -/

/-- What the visitor returns is what the stream holds. Here `vtor₀` is the visitor before the look-ahead, whose
stream still has the next index. -/
theorem stored_of_visit {values : ExtFields ms} {vtor vtor' : UnpackVisitor} (vtor₀ : UnpackVisitor)
    (hwhich : vtor₀.which = UInt32.ofNat which) (hread : maybeReadNextWhich unsignedInt vtor₀ = .ok vtor)
    (hvisit : visit unsignedInt ms vtor = .ok (values, vtor')) (hleft : vtor'.countLeft = 0) :
    vtor₀.countLeft.toNat = present ms values ∧ Stored unsignedInt ms values which vtor₀.stream vtor'.stream := by
  induction ms generalizing which vtor₀ vtor with
  | nil =>
    -- the look-ahead has read nothing, as nothing is left
    obtain rfl : vtor = vtor' := (Prod.mk.inj (Except.ok.inj hvisit)).2
    rcases maybeReadNextWhich_eq_ok.mp hread with ⟨hzero, rfl⟩ | ⟨hpos, w, s, -, rfl⟩
    · exact ⟨congrArg UInt32.toNat hzero, rfl⟩
    · have hzero : vtor₀.countLeft = 0 := hleft
      exact absurd hpos (by simp [hzero])
  | cons m ms ih =>
    have hnext : vtor₀.which + 1 = UInt32.ofNat (which + 1) := by
      rw [hwhich, UInt32.ofNat_add]
      rfl
    have hsame := which_maybeReadNextWhich hread
    obtain ⟨value, values⟩ := values
    obtain ⟨vtor₁, hmember, hmembers⟩ := visit_cons.mp hvisit
    cases value with
    | none =>
      obtain ⟨-, rfl⟩ := visitMember_eq_none.mp hmember
      rw [hsame] at hmembers
      exact ih { vtor₀ with which := vtor₀.which + 1 } hnext (maybeReadNextWhich_which hread _) hmembers
    | some value =>
      obtain ⟨⟨hpos, hindex⟩, s, vtor₂, hvalue, hread₂, rfl⟩ := visitMember_eq_some.mp hmember
      rcases maybeReadNextWhich_eq_ok.mp hread with ⟨hzero, rfl⟩ | ⟨hpos₀, w, s₀, hw, rfl⟩
      · exact absurd hpos (by simp [hzero])
      · -- the index that was read is that of this member
        have htag : w = UInt32.ofNat which := by rw [← hwhich, show vtor₀.which = w from hindex]
        have hsame₂ : vtor₂.which = vtor₀.which := by rw [which_maybeReadNextWhich hread₂]
        rw [hsame₂] at hmembers
        obtain ⟨hcount, hstored⟩ := ih
          { vtor₀ with which := vtor₀.which + 1, nextWhich := w, stream := s, countLeft := vtor₀.countLeft - 1 }
          hnext (maybeReadNextWhich_which hread₂ _) hmembers
        refine ⟨?_, s₀, s, htag ▸ hw, hvalue, hstored⟩
        show vtor₀.countLeft.toNat = present ms values + 1
        rw [← toNat_sub_one hpos₀, ← hcount]

/-- What the stream holds is what the visitor returns. -/
theorem visit_of_stored {values : ExtFields ms} (vtor₀ : UnpackVisitor) (hfits : which + ms.length ≤ 2 ^ 32)
    (hwhich : vtor₀.which = UInt32.ofNat which) (hcount : vtor₀.countLeft.toNat = present ms values)
    (hstored : Stored unsignedInt ms values which vtor₀.stream rest) :
    ∃ vtor vtor', maybeReadNextWhich unsignedInt vtor₀ = .ok vtor ∧
      visit unsignedInt ms vtor = .ok (values, vtor') ∧ vtor'.countLeft = 0 ∧ vtor'.stream = rest := by
  induction ms generalizing which vtor₀ with
  | nil =>
    have hzero : vtor₀.countLeft = 0 := UInt32.toNat_inj.mp hcount
    exact ⟨vtor₀, vtor₀, maybeReadNextWhich_eq_ok.mpr (.inl ⟨hzero, rfl⟩), rfl, hzero, hstored⟩
  | cons m ms ih =>
    rw [List.length_cons] at hfits
    have hnext : vtor₀.which + 1 = UInt32.ofNat (which + 1) := by
      rw [hwhich, UInt32.ofNat_add]
      rfl
    obtain ⟨value, values⟩ := values
    cases value with
    | none =>
      obtain ⟨vtor, vtor', hread, hvisit, hdone⟩ := ih { vtor₀ with which := vtor₀.which + 1 } (by omega) hnext
        hcount hstored
      have hback := maybeReadNextWhich_which hread vtor₀.which
      -- the next index is that of a later member
      have hlater : ¬ (0 < vtor.countLeft ∧ vtor₀.which = vtor.nextWhich) := by
        rintro ⟨hpos, hindex⟩
        rcases maybeReadNextWhich_eq_ok.mp hread with ⟨hzero, rfl⟩ | ⟨hpos₀, w, s, hw, rfl⟩
        · have hzero' : vtor₀.countLeft = 0 := hzero
          exact absurd hpos (by simp [hzero'])
        · have hpresent : 0 < present ms values := by
            rw [← show vtor₀.countLeft.toNat = present ms values from hcount]
            exact UInt32.lt_iff_toNat_lt.mp hpos₀
          have hstored' : Stored unsignedInt ms values (which + 1) vtor₀.stream rest := hstored
          obtain ⟨tag, s', htag, hle, hlt⟩ := hstored'.next_index hpresent
          have hw' : w = UInt32.ofNat tag := (Prod.mk.inj (Except.ok.inj (hw.symm.trans htag))).1
          have heq : UInt32.ofNat which = UInt32.ofNat tag := by
            rw [← hwhich, ← hw']
            exact hindex
          have hsame := ofNat_injective (by omega) (by omega) heq
          omega
      have hsame := which_maybeReadNextWhich hread
      refine ⟨{ vtor with which := vtor₀.which }, vtor', hback, visit_cons.mpr ⟨vtor, ?_, hvisit⟩, hdone⟩
      refine visitMember_eq_none.mpr ⟨hlater, ?_⟩
      show vtor = { vtor with which := vtor₀.which + 1 }
      rw [← show vtor.which = vtor₀.which + 1 from hsame]
    | some value =>
      obtain ⟨s₀, s, hindex, hvalue, hstored⟩ := hstored
      have hpos : 0 < vtor₀.countLeft := UInt32.lt_iff_toNat_lt.mpr (by rw [hcount]; exact Nat.succ_pos _)
      have hcount' : (vtor₀.countLeft - 1).toNat = present ms values := by
        have hsum : vtor₀.countLeft.toNat = present ms values + 1 := hcount
        rw [← toNat_sub_one hpos] at hsum
        exact Nat.succ.inj hsum
      obtain ⟨vtor₂, vtor', hread₂, hvisit, hdone⟩ := ih
        { vtor₀ with which := vtor₀.which + 1, nextWhich := UInt32.ofNat which, stream := s,
                     countLeft := vtor₀.countLeft - 1 } (by omega) hnext hcount' hstored
      have hsame := which_maybeReadNextWhich hread₂
      refine ⟨{ vtor₀ with nextWhich := UInt32.ofNat which, stream := s₀ }, vtor',
        maybeReadNextWhich_eq_ok.mpr (.inr ⟨hpos, _, _, hindex, rfl⟩), visit_cons.mpr ⟨vtor₂, ?_, hvisit⟩, hdone⟩
      refine visitMember_eq_some.mpr ⟨⟨hpos, hwhich⟩, s, _, hvalue, maybeReadNextWhich_which hread₂ vtor₀.which, ?_⟩
      show vtor₂ = { vtor₂ with which := vtor₀.which + 1 }
      rw [← show vtor₂.which = vtor₀.which + 1 from hsame]

/-- **What is unpacked**: a stream is accepted with the value that it holds, and with no other one. -/
theorem unpack_ok_iff {T : ExtStruct ε} {value : ExtFields T.members} :
    unpackExtension unsignedInt T stream = .ok (value, rest) ↔
      ∃ s, unsignedInt.unpack stream = .ok (UInt32.ofNat (present T.members value), s) ∧
        Stored unsignedInt T.members value 0 s rest := by
  have hcounts : (UInt32.ofNat (present T.members value)).toNat = present T.members value :=
    UInt32.toNat_ofNat_of_lt' ((present_le_length value).trans_lt T.length_lt)
  constructor
  · intro h
    rw [unpackExtension] at h
    split at h
    · exact absurd h (by simp)
    · rename_i value' vtor hmembers
      split at h
      · rename_i hleft
        obtain ⟨rfl, rfl⟩ := Prod.mk.inj (Except.ok.inj h)
        obtain ⟨⟨c, s⟩, hc, hrun⟩ := Exec.except_bind_eq_ok.mp hmembers
        obtain ⟨vtor₁, hread, hvisit⟩ := Exec.except_bind_eq_ok.mp hrun
        obtain ⟨hcount, hstored⟩ := stored_of_visit (start 0 c s) rfl hread hvisit hleft
        refine ⟨s, ?_, hstored⟩
        rw [hc, ← hcount]
        simp [start]
      · exact absurd h (by simp)
  · rintro ⟨s, hc, hstored⟩
    obtain ⟨vtor, vtor', hread, hvisit, hleft, rfl⟩ := visit_of_stored
      (start 0 (UInt32.ofNat (present T.members value)) s) (by rw [Nat.zero_add]; exact T.length_lt.le) rfl
      hcounts hstored
    have hmembers : unpackMembers unsignedInt T.members stream = .ok (value, vtor') :=
      Exec.except_bind_eq_ok.mpr ⟨_, hc, Exec.except_bind_eq_ok.mpr ⟨vtor, hread, hvisit⟩⟩
    rw [unpackExtension, hmembers]
    exact if_pos hleft

/-! ### Packing -/

theorem packCount_eq : ∀ {ms : List (ExtMember ε)} (values : ExtFields ms) (count : UInt32),
    packCount ms values count = count + UInt32.ofNat (present ms values)
  | [], _, count => (UInt32.add_zero count).symm
  | _ :: ms, (none, values), count => by
    show packCount ms values (count + 0) = count + UInt32.ofNat (present ms values)
    rw [packCount_eq, UInt32.add_zero]
  | _ :: ms, (some _, values), count => by
    show packCount ms values (count + 1) = count + UInt32.ofNat (present ms values + 1)
    rw [packCount_eq, UInt32.ofNat_add, UInt32.add_assoc, UInt32.add_comm 1]
    rfl

theorem packRead_eq : ∀ {ms : List (ExtMember ε)} (values : ExtFields ms) (which : UInt32) (stream : List UInt8),
    packRead unsignedInt ms values which stream = stream ++ packRead unsignedInt ms values which []
  | [], _, _, stream => (List.append_nil stream).symm
  | _ :: _, (none, values), which, stream => packRead_eq values (which + 1) stream
  | m :: ms, (some value, values), which, stream => by
    show packRead unsignedInt ms values (which + 1) (stream ++ unsignedInt.pack which ++ m.codec.pack value) =
      stream ++ packRead unsignedInt ms values (which + 1) ([] ++ unsignedInt.pack which ++ m.codec.pack value)
    rw [packRead_eq values, packRead_eq values _ ([] ++ _ ++ _), List.nil_append]
    simp only [List.append_assoc]

/-- What is packed for a member that is present. -/
theorem packRead_some {m : ExtMember ε} {value : m.Value} {values : ExtFields ms} (which : ℕ) :
    packRead unsignedInt (m :: ms) (some value, values) (UInt32.ofNat which) [] =
      unsignedInt.pack (UInt32.ofNat which) ++ (m.codec.pack value ++
        packRead unsignedInt ms values (UInt32.ofNat (which + 1)) []) := by
  have hnext : UInt32.ofNat which + 1 = UInt32.ofNat (which + 1) := (UInt32.ofNat_add which 1).symm
  show packRead unsignedInt ms values (UInt32.ofNat which + 1) _ = _
  rw [packRead_eq, hnext]
  simp

/-- The stream that is packed holds the value. -/
theorem stored_packRead (values : ExtFields ms) (which : ℕ) (rest : List UInt8) :
    Stored unsignedInt ms values which (packRead unsignedInt ms values (UInt32.ofNat which) [] ++ rest) rest := by
  induction ms generalizing which with
  | nil => rfl
  | cons m ms ih =>
    obtain ⟨value, values⟩ := values
    cases value with
    | none =>
      have hrest := ih values (which + 1)
      rw [UInt32.ofNat_add] at hrest
      exact hrest
    | some value =>
      rw [packRead_some, List.append_assoc, List.append_assoc]
      exact ⟨_, _, unsignedInt.unpack_pack _ _, m.codec.unpack_pack _ _, ih values (which + 1)⟩

/-- If there is only one way to pack a number and the values of the members, then the stream is the packed one. -/
theorem Stored.eq_packRead {values : ExtFields ms} (hint : unsignedInt.Canonical)
    (hmembers : ∀ m ∈ ms, m.codec.Canonical) (h : Stored unsignedInt ms values which stream rest) :
    stream = packRead unsignedInt ms values (UInt32.ofNat which) [] ++ rest := by
  induction ms generalizing which stream with
  | nil => exact h
  | cons m ms ih =>
    have hms : ∀ m ∈ ms, m.codec.Canonical := fun m hm => hmembers m (List.mem_cons_of_mem _ hm)
    obtain ⟨value, values⟩ := values
    cases value with
    | none =>
      have hrest := ih hms h
      rw [UInt32.ofNat_add] at hrest
      exact hrest
    | some value =>
      obtain ⟨s, s', hindex, hvalue, hstored⟩ := h
      rw [packRead_some, List.append_assoc, List.append_assoc, hint hindex,
        hmembers m List.mem_cons_self hvalue, ih hms hstored]

/-! ### Indices -/

/-- The indices of the members that are present, where the first member has the index `which`. -/
def presentTags : (ms : List (ExtMember ε)) → ExtFields ms → ℕ → List UInt32
  | [], _, _ => []
  | _ :: ms, (none, values), which => presentTags ms values (which + 1)
  | _ :: ms, (some _, values), which => UInt32.ofNat which :: presentTags ms values (which + 1)

/-- The stream holds entries with these indices. The last one need not be followed by a value, and only a last one may
be unknown. -/
def HoldsTags (unsignedInt : Codec ε UInt32) (ms : List (ExtMember ε)) : List UInt32 → List UInt8 → Prop
  | [], _ => True
  | tag :: tags, stream => ∃ s, unsignedInt.unpack stream = .ok (tag, s) ∧
    (tags = [] ∨ ∃ m value s', ms[tag.toNat]? = some m ∧ m.codec.unpack s = .ok (value, s') ∧
      HoldsTags unsignedInt ms tags s')

/-- The indices of members that are there, each one before the next. -/
def InOrder (ms : List (ExtMember ε)) (tags : List UInt32) : Prop :=
  tags.Pairwise (· < ·) ∧ ∀ tag ∈ tags, tag.toNat < ms.length

theorem presentTags_mem {values : ExtFields ms} {tag : UInt32} (h : tag ∈ presentTags ms values which)
    (hfits : which + ms.length ≤ 2 ^ 32) : which ≤ tag.toNat ∧ tag.toNat < which + ms.length := by
  induction ms generalizing which with
  | nil => exact absurd h List.not_mem_nil
  | cons m ms ih =>
    rw [List.length_cons] at hfits ⊢
    obtain ⟨value, values⟩ := values
    cases value with
    | none =>
      have := ih h (by omega)
      omega
    | some value =>
      rcases List.mem_cons.mp h with rfl | h
      · rw [UInt32.toNat_ofNat_of_lt' (show which < 2 ^ 32 by omega)]
        omega
      · have := ih h (by omega)
        omega

theorem presentTags_pairwise (values : ExtFields ms) (hfits : which + ms.length ≤ 2 ^ 32) :
    (presentTags ms values which).Pairwise (· < ·) := by
  induction ms generalizing which with
  | nil => exact List.Pairwise.nil
  | cons m ms ih =>
    rw [List.length_cons] at hfits
    obtain ⟨value, values⟩ := values
    cases value with
    | none => exact ih values (by omega)
    | some value =>
      refine List.pairwise_cons.mpr ⟨fun tag htag => ?_, ih values (by omega)⟩
      have hlater := (presentTags_mem htag (by omega)).1
      rw [UInt32.lt_iff_toNat_lt, UInt32.toNat_ofNat_of_lt' (show which < 2 ^ 32 by omega)]
      omega

/-- A stream that holds a value holds the indices of the members that are present, and no others. -/
theorem Stored.tags_prefix {all : List (ExtMember ε)} (hms : all.drop which = ms) (hfits : all.length ≤ 2 ^ 32)
    {values : ExtFields ms} {tags : List UInt32} (h : Stored unsignedInt ms values which stream rest)
    (htags : HoldsTags unsignedInt all tags stream) (hlen : tags.length ≤ present ms values) :
    tags <+: presentTags ms values which := by
  induction ms generalizing which stream tags with
  | nil =>
    rw [List.length_eq_zero_iff.mp (Nat.le_zero.mp hlen)]
    exact List.nil_prefix
  | cons m ms ih =>
    have hms' : all.drop (which + 1) = ms := by rw [← List.drop_drop, hms, List.drop_one, List.tail_cons]
    have hget : all[which]? = some m := by rw [← List.head?_drop, hms, List.head?_cons]
    obtain ⟨value, values⟩ := values
    cases value with
    | none => exact ih hms' h htags hlen
    | some value =>
      cases tags with
      | nil => exact List.nil_prefix
      | cons tag tags =>
        obtain ⟨s, s', hindex, hvalue, hstored⟩ := h
        obtain ⟨s₁, hindex₁, hmore⟩ := htags
        obtain ⟨rfl, rfl⟩ := Prod.mk.inj (Except.ok.inj (hindex.symm.trans hindex₁))
        refine List.cons_prefix_cons.mpr ⟨rfl, ?_⟩
        rcases hmore with rfl | ⟨m', value', s₂, hget', hvalue', htags'⟩
        · exact List.nil_prefix
        · have hlt : which < all.length := (List.getElem?_eq_some_iff.mp hget).1
          rw [UInt32.toNat_ofNat_of_lt' (hlt.trans_le hfits), hget, Option.some.injEq] at hget'
          obtain rfl := hget'
          obtain ⟨-, rfl⟩ := Prod.mk.inj (Except.ok.inj (hvalue.symm.trans hvalue'))
          exact ih hms' hstored htags' (Nat.le_of_succ_le_succ hlen)

/-! ### The encoding -/

/-- Packing and unpacking are exact, and nothing else is unpacked than what is packed. -/
structure ExactEncoding (unsignedInt : Codec ε UInt32) (T : ExtStruct ε) : Prop where
  /-- A packed value is unpacked, and exactly its bytes are read. -/
  roundTrip : ∀ value rest, unpackExtension unsignedInt T (packExtension unsignedInt T value ++ rest) = .ok (value, rest)
  /-- What is unpacked is laid out as a packed value. The number of members, their indices and their values may only be
  written in another way. -/
  layout : ∀ stream value rest, unpackExtension unsignedInt T stream = .ok (value, rest) ↔
    ∃ s, unsignedInt.unpack stream = .ok (UInt32.ofNat (present T.members value), s) ∧
      Stored unsignedInt T.members value 0 s rest
  /-- If there is no other way to write these, the bytes that were read are the packed value. -/
  canonical : unsignedInt.Canonical → (∀ m ∈ T.members, m.codec.Canonical) →
    ∀ stream value rest, unpackExtension unsignedInt T stream = .ok (value, rest) →
      stream = packExtension unsignedInt T value ++ rest
  /-- Entries are refused when an index is unknown, comes twice or is out of order. -/
  rejectsTags : ∀ stream count s tags, unsignedInt.unpack stream = .ok (count, s) → tags.length ≤ count.toNat →
    HoldsTags unsignedInt T.members tags s → ¬ InOrder T.members tags →
      ∀ r, unpackExtension unsignedInt T stream ≠ .ok r
  /-- A number of entries is refused that is larger than the number of members. -/
  rejectsCount : ∀ stream count s, unsignedInt.unpack stream = .ok (count, s) → T.members.length < count.toNat →
    ∀ r, unpackExtension unsignedInt T stream ≠ .ok r

/-- **The encoding of extensions is exact**, for every struct of optional members. -/
theorem extension_exactEncoding (unsignedInt : Codec ε UInt32) (T : ExtStruct ε) : ExactEncoding unsignedInt T := by
  have hpacked : ∀ value, packExtension unsignedInt T value =
      unsignedInt.pack (UInt32.ofNat (present T.members value)) ++ packRead unsignedInt T.members value 0 [] := by
    intro value
    rw [packExtension, packRead_eq, packCount_eq, UInt32.zero_add]
  have hcounts : ∀ value : ExtFields T.members,
      (UInt32.ofNat (present T.members value)).toNat = present T.members value := fun value =>
    UInt32.toNat_ofNat_of_lt' ((present_le_length value).trans_lt T.length_lt)
  refine ⟨fun value rest => ?_, fun stream value rest => unpack_ok_iff, fun hint hmembers stream value rest h => ?_,
    fun stream count s tags hcount hlen htags hbad r h => ?_, fun stream count s hcount hlarge r h => ?_⟩
  · rw [hpacked, List.append_assoc]
    exact unpack_ok_iff.mpr ⟨_, unsignedInt.unpack_pack _ _, stored_packRead value 0 rest⟩
  · obtain ⟨s, hcount, hstored⟩ := unpack_ok_iff.mp h
    rw [hpacked, List.append_assoc, hint hcount, hstored.eq_packRead hint hmembers]
    rfl
  · obtain ⟨s', hcount', hstored⟩ := unpack_ok_iff.mp h
    obtain ⟨rfl, rfl⟩ := Prod.mk.inj (Except.ok.inj (hcount.symm.trans hcount'))
    rw [hcounts] at hlen
    have hfits : 0 + T.members.length ≤ 2 ^ 32 := by rw [Nat.zero_add]; exact T.length_lt.le
    have hall : T.members.drop 0 = T.members := List.drop_zero
    have hinit := hstored.tags_prefix hall T.length_lt.le htags hlen
    refine hbad ⟨(presentTags_pairwise r.1 hfits).sublist hinit.sublist, fun tag htag => ?_⟩
    simpa using (presentTags_mem (hinit.subset htag) hfits).2
  · obtain ⟨s', hcount', -⟩ := unpack_ok_iff.mp h
    obtain ⟨rfl, -⟩ := Prod.mk.inj (Except.ok.inj (hcount.symm.trans hcount'))
    rw [hcounts] at hlarge
    exact absurd hlarge (not_lt.mpr (present_le_length r.1))

/-! ### A struct of two members -/

/-- Groups of seven bits, the lowest first, where all but the last one have their high bit set. -/
def packGroups : ℕ → ℕ → List UInt8
  | 0, _ => []
  | groups + 1, n =>
    if n < 128 then [UInt8.ofNat n] else UInt8.ofNat (n % 128 + 128) :: packGroups groups (n / 128)

def unpackGroups : List UInt8 → Except Unit (ℕ × List UInt8)
  | [] => .error ()
  | b :: s =>
    if b.toNat < 128 then .ok (b.toNat, s)
    else do
      let (n, rest) ← unpackGroups s
      .ok (b.toNat - 128 + 128 * n, rest)

theorem unpackGroups_packGroups : ∀ {groups n : ℕ} (rest : List UInt8), 0 < groups → n < 128 ^ groups →
    unpackGroups (packGroups groups n ++ rest) = .ok (n, rest)
  | 0, _, _, hpos, _ => absurd hpos (Nat.lt_irrefl 0)
  | groups + 1, n, rest, _, hn => by
    by_cases hlast : n < 128
    · have hb : (UInt8.ofNat n).toNat = n := UInt8.toNat_ofNat_of_lt' (show n < 256 by omega)
      rw [packGroups, if_pos hlast, List.singleton_append, unpackGroups, hb, if_pos hlast]
    · have hb : (UInt8.ofNat (n % 128 + 128)).toNat = n % 128 + 128 :=
        UInt8.toNat_ofNat_of_lt' (show n % 128 + 128 < 256 by omega)
      have hrest : n / 128 < 128 ^ groups := by
        rw [pow_succ] at hn
        exact Nat.div_lt_of_lt_mul (by rwa [Nat.mul_comm])
      have hpos : 0 < groups := by
        rcases Nat.eq_zero_or_pos groups with rfl | hpos
        · exact absurd (show n < 128 by simpa using hn) hlast
        · exact hpos
      rw [packGroups, if_neg hlast, List.cons_append, unpackGroups, hb, if_neg (by omega),
        unpackGroups_packGroups rest hpos hrest]
      show Except.ok (n % 128 + 128 - 128 + 128 * (n / 128), rest) = _
      rw [Nat.add_sub_cancel, Nat.mod_add_div]

/-- Numbers as `unsigned_int` packs them. -/
def groupCodec : Codec Unit UInt32 where
  pack n := packGroups 5 n.toNat
  unpack s := (unpackGroups s).map fun r => (UInt32.ofNat r.1, r.2)
  unpack_pack n rest := by
    have hlt : n.toNat < 128 ^ 5 := n.toNat_lt.trans (by decide)
    rw [unpackGroups_packGroups rest (by decide) hlt]
    show Except.ok (UInt32.ofNat n.toNat, rest) = _
    rw [UInt32.ofNat_toNat]

def byteCodec : Codec Unit UInt8 where
  pack b := [b]
  unpack
    | [] => .error ()
    | b :: s => .ok (b, s)
  unpack_pack _ _ := rfl

def twoBytes : ExtStruct Unit where
  members := [⟨UInt8, byteCodec⟩, ⟨UInt8, byteCodec⟩]
  length_lt := by decide

/-- The second of two members alone is one entry with the index 1. -/
theorem extension_exactEncoding_twoBytes :
    packExtension groupCodec twoBytes (none, some 7, ()) = [1, 1, 7] ∧
      unpackExtension groupCodec twoBytes ([1, 1, 7] ++ [9]) = .ok ((none, some 7, ()), [9]) :=
  ⟨rfl, (extension_exactEncoding groupCodec twoBytes).roundTrip (none, some 7, ()) [9]⟩

end FinChain.Protocol
