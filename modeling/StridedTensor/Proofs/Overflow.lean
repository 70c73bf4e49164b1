import StridedTensor.Proofs.Reshaping
import StridedTensor.Proofs.Slicing
import StridedTensor.Proofs.Stale

/-!
# Addresses beyond 64 bits

The span of a tensor is computed with a check, so that a tensor whose last element lies too far away is reported. The
place of one element, the offset of a slice and the sizes that the test for contiguity multiplies are computed without
one (`Result.Unchecked`), and before the span is looked at. `Context.Limits` says of each operation exactly where it stops
for that reason; everywhere else it comes to a result or to an error. Where the span fits, nothing stops but a reshaping
to strides that do not.

So the outcome of an access to a tensor whose span is too long depends on the index: the error of the check if the place
of the element still fits, and a stop otherwise (`Session.farElement_halts`).
-/

namespace StridedTensor

namespace Result

variable {α β : Type}

/-- The computation has a value, or stops because it leaves 64 bits. -/
def Unchecked (r : Result α) : Prop := (∃ a, r = .ok a) ∨ r = halt .overflow

namespace Unchecked

private theorem ok (a : α) : Unchecked (.ok a) := .inl ⟨a, rfl⟩

private theorem ofWord? (o : Option α) : (ofWord? o).Unchecked := by
  cases o with
  | none => exact .inr rfl
  | some a => exact .ok a

private theorem bind {r : Result α} {f : α → Result β} (hr : r.Unchecked) (hf : ∀ a, (f a).Unchecked) :
    (r >>= f).Unchecked := by
  rcases hr with ⟨a, rfl⟩ | rfl
  · exact hf a
  · exact .inr rfl

variable {r : Result α} (h : r.Unchecked)
include h

private theorem eq_halt (hne : ∀ a, r ≠ .ok a) : r = halt .overflow :=
  h.resolve_left fun ⟨a, ha⟩ => hne a ha

private theorem sound_iff : r.Sound ↔ ∃ a, r = .ok a := by
  refine ⟨fun hsound => h.resolve_right (hsound .overflow), fun ⟨a, ha⟩ => ?_⟩
  rw [ha]
  exact .ok a

end Unchecked

end Result

/-! ### The test for contiguity -/

private theorem Layout.unchecked_canonical (shape : Shape) (type : ElementType) :
    (Layout.canonical shape type).Unchecked :=
  .bind (.ofWord? _) fun _ => .ok _

/-- Packed axes have been multiplied without leaving 64 bits. -/
private theorem Layout.lt_limit_of_packed {stride : Nat} {axes : List Axis} (h : packed? stride axes = some true)
    (hlt : stride < Word.limit) : stride * (axes.map Prod.fst).prod < Word.limit := by
  induction axes generalizing stride with
  | nil => simpa using hlt
  | cons a axes ih =>
    obtain ⟨n, s⟩ := a
    rw [packed?] at h
    rw [List.map_cons, List.prod_cons]
    by_cases h1 : n = 1
    · rw [if_pos h1] at h
      rw [h1, Nat.one_mul]
      exact ih h hlt
    · rw [if_neg h1] at h
      by_cases hs : s ≠ stride
      · simp [hs] at h
      · rw [if_neg hs, Option.bind_eq_bind, Option.bind_eq_some_iff] at h
        obtain ⟨m, hm, h⟩ := h
        obtain ⟨hfit, rfl⟩ := Word.mul?_eq_some.1 hm
        rw [← Nat.mul_assoc]
        exact ih h hfit

namespace Tensor

variable {t : Tensor} {n : Nat} {index extents : List Nat} {shape : Shape}

private theorem unchecked_isContiguous (t : Tensor) : t.isContiguous.Unchecked := by
  unfold isContiguous Layout.isContiguous Layout.isPacked
  refine .bind (.ofWord? _) fun n => ?_
  split
  · exact .ok _
  · exact .ofWord? _

private theorem isContiguous_of_empty (hn : t.numel = .ok 0) : t.isContiguous = .ok true := by
  unfold isContiguous Layout.isContiguous Layout.isPacked
  rw [show t.layout.shape.numel = .ok 0 from hn]
  rfl

/-- A span that is too long is all that the check of a span can find. -/
private theorem span_cases (hn : t.numel = .ok n) : (∃ s, t.span = .ok s) ∨ t.span = Result.reject .overflow := by
  unfold span
  rw [hn, Result.ok_bind]
  by_cases h0 : n = 0
  · exact .inl ⟨_, if_pos h0⟩
  · rw [if_neg h0]
    cases Layout.lastDistance? t.layout.axes with
    | none => exact .inr rfl
    | some last =>
      simp only [Result.ofSpanEnd?, Result.ok_bind]
      cases Word.add? t.offset last with
      | none => exact .inr rfl
      | some start =>
        simp only [Result.ok_bind]
        cases Word.add? start t.type.size with
        | none => exact .inr rfl
        | some stop => exact .inl ⟨_, rfl⟩

private theorem sound_isContiguous (hn : t.numel = .ok n) (hs : t.span ≠ Result.reject .overflow) :
    t.isContiguous.Sound := by
  obtain ⟨s, hs⟩ := (span_cases hn).resolve_right hs
  exact t.unchecked_isContiguous.sound_iff.2 (isContiguous_of_span hs)

/-- A contiguous tensor with elements has strides in every other shape. -/
private theorem exists_canonical_of_isContiguous (hc : t.isContiguous = .ok true) (hpos : 0 < t.shape.toList.prod)
    (hprod : shape.toList.prod = t.shape.toList.prod) : ∃ l, Layout.canonical shape t.type = .ok l := by
  refine Layout.canonical_eq_ok (by rwa [hprod]) ?_
  unfold isContiguous Layout.isContiguous Layout.isPacked at hc
  obtain ⟨n, hn, hc⟩ := Result.bind_eq_ok.1 hc
  rw [if_neg (by rw [numel_eq hn]; omega)] at hc
  have hfit := Layout.lt_limit_of_packed (Result.ofWord?_eq_ok.1 hc) t.type.size_lt_limit
  rwa [prod_of_perm (List.reverse_perm _), ← hprod] at hfit

/-! ### Places, slices and shapes -/

private theorem unchecked_elementOffset (hi : List.Forall₂ (· < ·) index t.shape.toList) :
    (t.elementOffset index).Unchecked := by
  unfold elementOffset
  rw [Layout.inBounds_iff.2 hi]
  exact .bind (.ofWord? _) fun _ => .ofWord? _

private theorem elementOffset_eq_halt (hi : List.Forall₂ (· < ·) index t.shape.toList)
    (h : Word.limit ≤ t.place index) :
    t.elementOffset index = Result.halt .overflow := by
  refine (unchecked_elementOffset hi).eq_halt fun o ho => ?_
  have := (elementOffset_eq_ok.1 ho).2.1
  omega

private theorem sound_slice_iff {dim start stop : Nat} : (t.slice dim start stop).Sound ↔
    (t.canSlice dim start stop = true → t.offset + start * t.strides.entry dim < Word.limit) := by
  by_cases hcan : t.canSlice dim start stop = true
  · have hunchecked : (t.slice dim start stop).Unchecked := by
      unfold slice
      rw [hcan]
      exact .bind (.ofWord? _) fun _ => .bind (.ofWord? _) fun _ => .ok _
    rw [hunchecked.sound_iff]
    simp [slice_eq_ok, hcan]
  · refine iff_of_true ?_ fun h => absurd h hcan
    unfold slice
    rw [if_pos (by simpa using hcan)]
    exact .reject _

/-- The strides of the new shape are computed last, and they fit unless there are no elements. -/
private theorem sound_withLayout_iff (hn : t.numel = .ok n) (hm : shape.numel = .ok n) (hc : t.isContiguous = .ok true) :
    (do return t.withLayout (← Layout.canonical shape t.type) : Result Tensor).Sound ↔
      (n = 0 → ∃ l, Layout.canonical shape t.type = .ok l) := by
  have hunchecked : (do return t.withLayout (← Layout.canonical shape t.type) : Result Tensor).Unchecked :=
    .bind (Layout.unchecked_canonical shape t.type) fun _ => .ok _
  rw [hunchecked.sound_iff]
  constructor
  · rintro ⟨v, hv⟩ -
    obtain ⟨l, hl, -⟩ := Result.bind_eq_ok.1 hv
    exact ⟨l, hl⟩
  · intro hempty
    obtain ⟨l, hl⟩ : ∃ l, Layout.canonical shape t.type = .ok l := by
      rcases Nat.eq_zero_or_pos n with h0 | hpos
      · exact hempty h0
      · have hprod : shape.toList.prod = t.shape.toList.prod := by
          rw [← numel_eq hn]
          exact (Word.product?_eq (Result.ofWord?_eq_ok.1 hm)).symm
        exact exists_canonical_of_isContiguous hc (by rwa [← numel_eq hn]) hprod
    exact ⟨_, by rw [hl]; rfl⟩

private theorem sound_reshapeTo_iff {m : Nat} (hn : t.numel = .ok n) (hm : shape.numel = .ok m) :
    (t.reshapeTo shape).Sound ↔
    (m = n → t.isContiguous.Sound ∧ (n = 0 → ∀ k, t.type.size * (shape.toList.drop k).prod < Word.limit)) := by
  unfold reshapeTo
  rw [hm, Result.ok_bind, hn, Result.ok_bind]
  by_cases hcount : m = n
  · subst hcount
    rw [if_neg (by simp), ← Layout.canonical_isOk_iff, imp_iff_right rfl]
    rcases t.unchecked_isContiguous with ⟨b, hb⟩ | hb
    · have hsound : t.isContiguous.Sound := t.unchecked_isContiguous.sound_iff.2 ⟨b, hb⟩
      rw [and_iff_right hsound, hb, Result.ok_bind]
      cases b with
      | true => exact sound_withLayout_iff hn hm hb
      | false =>
        refine iff_of_true (.reject _) fun h0 => ?_
        subst h0
        simp [isContiguous_of_empty hn] at hb
    · rw [hb]
      exact iff_of_false (fun h => h .overflow rfl) fun h => h.1 .overflow rfl
  · rw [if_pos hcount]
    exact iff_of_true (.reject _) fun h => absurd h hcount

private theorem sound_reshape_iff {m : Nat} (hn : t.numel = .ok n) (hm : Word.product? extents = some m) :
    (t.reshape extents).Sound ↔ (extents.length ≤ maxRank → m = n →
      t.isContiguous.Sound ∧ (n = 0 → ∀ k, t.type.size * (extents.drop k).prod < Word.limit)) := by
  by_cases hlen : extents.length ≤ maxRank
  · obtain ⟨shape, hshape⟩ : ∃ shape : Shape, Dims.ofList extents = .ok shape := Dims.exists_ofList hlen
    rw [← Dims.toList_ofList hshape] at hm ⊢
    rw [reshape_toList, sound_reshapeTo_iff hn (Result.ofWord?_eq_ok.2 hm)]
    simp [shape.rank_le]
  · refine iff_of_true ?_ fun h => absurd h hlen
    unfold reshape Dims.ofList
    rw [dif_neg hlen]
    exact .reject _

end Tensor

/-! ### Accesses -/

namespace Context

variable {c : Context} {t : Tensor} {n : Nat} {index : List Nat}

private theorem get_of_host_error {e : Failure} (h : c.host t = .error e)
    (hi : List.Forall₂ (· < ·) index t.shape.toList)
    (hlt : t.place index < Word.limit) : c.get t index = .error e := by
  unfold get
  rw [Tensor.elementOffset_eq_ok.2 ⟨hi, hlt, rfl⟩, Result.ok_bind, h]
  rfl

private theorem set_of_host_error {e : Failure} (h : c.host t = .error e)
    (hi : List.Forall₂ (· < ·) index t.shape.toList)
    (hlt : t.place index < Word.limit) (value : Scalar) : c.set t index value = (.error e, c) := by
  unfold set updateHost
  rw [Tensor.elementOffset_eq_ok.2 ⟨hi, hlt, rfl⟩, h]
  rfl

private theorem get_eq_halt (hi : List.Forall₂ (· < ·) index t.shape.toList) (h : Word.limit ≤ t.place index) :
    c.get t index = Result.halt .overflow := by
  unfold get
  rw [Tensor.elementOffset_eq_halt hi h]
  rfl

private theorem set_eq_halt (hi : List.Forall₂ (· < ·) index t.shape.toList) (h : Word.limit ≤ t.place index)
    (value : Scalar) : c.set t index value = (Result.halt .overflow, c) := by
  unfold set
  rw [Tensor.elementOffset_eq_halt hi h]
  rfl

/-- An access to one element stops only if its place does not fit. -/
private theorem sound_access_iff (hn : t.numel = .ok n) (index : List Nat) (value : Scalar) :
    ((c.get t index).Sound ↔ (List.Forall₂ (· < ·) index t.shape.toList → t.place index < Word.limit)) ∧
      ((c.set t index value).1.Sound ↔ (List.Forall₂ (· < ·) index t.shape.toList → t.place index < Word.limit)) := by
  by_cases hi : List.Forall₂ (· < ·) index t.shape.toList
  · by_cases hlt : t.place index < Word.limit
    · suffices (c.get t index).Sound ∧ (c.set t index value).1.Sound from
        ⟨iff_of_true this.1 fun _ => hlt, iff_of_true this.2 fun _ => hlt⟩
      have hsound : (c.host t).Sound := host_sound fun f => by
        rw [hn]
        exact .ok n
      cases hhost : c.host t with
      | ok contents =>
        have hhosts := hosts_of_validate (validate_of_host hhost)
        exact ⟨hhosts.get_sound index, hhosts.set_sound index value⟩
      | error e =>
        rw [hhost] at hsound
        rw [get_of_host_error hhost hi hlt, set_of_host_error hhost hi hlt]
        exact ⟨fun f => (hsound f).error, fun f => (hsound f).error⟩
    · rw [get_eq_halt hi (by omega), set_eq_halt hi (by omega)]
      exact ⟨iff_of_false (fun h => h .overflow rfl) fun h => hlt (h hi),
        iff_of_false (fun h => h .overflow rfl) fun h => hlt (h hi)⟩
  · unfold get set
    rw [Tensor.elementOffset_of_not_below hi]
    exact ⟨iff_of_true (.reject _) fun h => absurd h hi, iff_of_true (.reject _) fun h => absurd h hi⟩

/-- The check reports a span that is too long before it looks for the buffer. -/
private theorem check_of_overflow (hstrides : t.ownership = true → t.zeroStride? = none) (hlive : c.isLive t = true)
    (hcpu : t.device.isCpu = true) (hs : t.span = Result.reject .overflow) : c.check t = Result.reject .overflow := by
  have hvalidate : t.validate = Result.reject .overflow := by
    unfold Tensor.validate Device.isAvailable
    unfold isLive at hlive
    cases hid : t.buffer with
    | none => simp [hid] at hlive
    | some id =>
      rw [hcpu, hs]
      cases howner : t.ownership with
      | false => rfl
      | true =>
        rw [hstrides howner]
        rfl
  unfold check
  rw [hvalidate]
  rfl

/-- Where the operations on a tensor stop because they leave 64 bits. -/
structure Limits (c : Context) (t : Tensor) : Prop where
  get : ∀ index, (c.get t index).Sound ↔ (List.Forall₂ (· < ·) index t.shape.toList → t.place index < Word.limit)
  set : ∀ index value,
    (c.set t index value).1.Sound ↔ (List.Forall₂ (· < ·) index t.shape.toList → t.place index < Word.limit)
  slice : ∀ dim start stop, (t.slice dim start stop).Sound ↔
    (t.canSlice dim start stop = true → t.offset + start * t.strides.entry dim < Word.limit)
  reshape : ∀ {extents n}, Word.product? extents = some n → ((t.reshape extents).Sound ↔
    (extents.length ≤ maxRank → t.numel = .ok n →
      t.isContiguous.Sound ∧ (n = 0 → ∀ k, t.type.size * (extents.drop k).prod < Word.limit)))
  /-- The strides that are expected of a contiguous tensor are not longer than its span. -/
  isContiguous : t.span ≠ Result.reject .overflow → t.isContiguous.Sound
  /-- A span that does not fit is the error of every access to an element whose place does. -/
  overflow : t.span = Result.reject .overflow → c.isLive t = true → t.device.isCpu = true →
    c.validate t = Result.reject .overflow ∧
      ∀ index, List.Forall₂ (· < ·) index t.shape.toList → t.place index < Word.limit →
        c.get t index = Result.reject .overflow ∧ ∀ value, c.set t index value = (Result.reject .overflow, c)

private theorem limits_of_numel (hstrides : t.ownership = true → t.zeroStride? = none) (hn : t.numel = .ok n) :
    c.Limits t where
  get index := (sound_access_iff hn index default).1
  set index value := (sound_access_iff hn index value).2
  slice _ _ _ := Tensor.sound_slice_iff
  reshape {extents m} hm := by
    rw [Tensor.sound_reshape_iff hn hm, hn, Except.ok.injEq]
    refine imp_congr_right fun _ => ⟨fun h heq => heq ▸ h heq.symm, fun h heq => heq ▸ h heq.symm⟩
  isContiguous := Tensor.sound_isContiguous hn
  overflow hs hlive hcpu := by
    have hcheck := check_of_overflow hstrides hlive hcpu hs
    have hhost : c.host t = Result.reject .overflow := by
      unfold host
      rw [hcheck]
      rfl
    refine ⟨by rw [validate, hcheck]; rfl, fun index hi hlt => ⟨get_of_host_error hhost hi hlt, fun value =>
      set_of_host_error hhost hi hlt value⟩⟩

end Context

/-! ### Sessions -/

namespace Session

variable {home : BufferId → Option Nat} {s : Session} {k : Nat} {c : Context}

/-- In every session that can come about, the operations on a tensor stop for want of 64 bits where `Context.Limits` says
and nowhere else, and a kernel only where the test for contiguity of one of its tensors does. -/
theorem Run.within_limits (h : Run home s) (hc : s.context? k = some c) :
    (∀ {x t n}, s.tensor? x = some t → t.numel = .ok n → c.Limits t) ∧
      (∀ op t, t.isContiguous.Sound → (c.reduceAll op t).Sound) ∧
      ∀ call : KernelCall Tensor, (∀ t ∈ call.toList, t.isContiguous.Sound) → (c.launch call).1.Sound :=
  ⟨fun ht hn => Context.limits_of_numel (h.coherent.agrees hc ht).strides hn,
    fun op _ hsound f => Context.reduceAll_avoids op (hsound f),
    fun _ hsound f => Context.launch_avoids fun t ht => hsound t ht f⟩

/-- Two numbers in one buffer, a tensor with the largest stride there is, and one with more bytes than fit. -/
def farElement : List Event := [.build {},
  .command 0 (.ofList "t" .f32 [0x3f800000#32, 0x40000000#32] [2] .cpu),
  .command 0 (.view "v" "t" (.asStrided [2] [2 ^ 64 - 1] 8)), .command 0 (.view "r" "t" (.asStrided [2 ^ 62] [4] 0))]

/-- The check reports both tensors, and so does reading the first element of one of them. -/
theorem farElement_limits : ∃ s c t v r, initial.performAll farElement = some s ∧ s.context? 0 = some c ∧
    s.tensor? "t" = some t ∧ s.tensor? "v" = some v ∧ s.tensor? "r" = some r ∧ c.Limits v ∧ c.Limits r ∧
    c.get v [0] = Result.reject .overflow ∧ c.get r [2 ^ 62 - 1] = Result.reject .overflow ∧
    (c.reduceAll .sum t).Sound ∧ (c.launch (.unary .neg t t)).1.Sound := by
  obtain ⟨s, hs⟩ : ∃ s, initial.performAll farElement = some s := Option.isSome_iff_exists.1 rfl
  have hfound : ((initial.performAll farElement).bind fun s => do
      let c ← s.context? 0
      let t ← s.tensor? "t"
      let v ← s.tensor? "v"
      let r ← s.tensor? "r"
      return (t.isContiguous, (v.numel, v.span, c.isLive v, v.device, v.shape.toList, v.place [0]),
        r.numel, r.span, c.isLive r, r.device, r.shape.toList, r.place [2 ^ 62 - 1])) =
      some (.ok true, (.ok 2, Result.reject .overflow, true, .cpu, [2], 8), .ok (2 ^ 62), Result.reject .overflow, true,
        .cpu, [2 ^ 62], 2 ^ 64 - 4) := rfl
  simp only [hs, Option.bind_eq_bind, Option.bind_some, Option.bind_eq_some_iff, Option.pure_def, Option.some.injEq,
    Prod.mk.injEq] at hfound
  obtain ⟨c, hc, t, ht, v, hv, r, hr, hcontiguous, ⟨hvn, hvs, hvlive, hvd, hvshape, hvplace⟩,
    hrn, hrs, hrlive, hrd, hrshape, hrplace⟩ := hfound
  obtain ⟨home, hrun⟩ := Run.initial.performAll hs
  obtain ⟨hlimits, hreduce, hlaunch⟩ := hrun.within_limits hc
  have hsound : t.isContiguous.Sound := by
    rw [hcontiguous]
    exact .ok true
  refine ⟨s, c, t, v, r, hs, hc, ht, hv, hr, hlimits hv hvn, hlimits hr hrn, ?_, ?_, hreduce .sum t hsound,
    hlaunch _ (by simpa [KernelCall.toList] using hsound)⟩
  · refine (((hlimits hv hvn).overflow hvs hvlive (by rw [hvd]; rfl)).2 [0] ?_ ?_).1
    · rw [hvshape]
      exact .cons (by decide) .nil
    · rw [hvplace]
      decide
  · refine (((hlimits hr hrn).overflow hrs hrlive (by rw [hrd]; rfl)).2 [2 ^ 62 - 1] ?_ ?_).1
    · rw [hrshape]
      exact .cons (by decide) .nil
    · rw [hrplace]
      decide

/-- Reading or writing the second element stops, and so do the slice that begins there, and reshaping or negating the
tensor with too many bytes. -/
theorem farElement_halts : ∃ s c v r, initial.performAll farElement = some s ∧ s.context? 0 = some c ∧
    s.tensor? "v" = some v ∧ s.tensor? "r" = some r ∧ v.numel = .ok 2 ∧ c.isLive v = true ∧ v.device.isCpu = true ∧
    c.validate v = Result.reject .overflow ∧ v.shape.toList = [2] ∧ c.get v [1] = Result.halt .overflow ∧
    (c.set v [1] Scalar.oneF32).1 = Result.halt .overflow ∧ v.canSlice 0 1 2 = true ∧
    v.slice 0 1 2 = Result.halt .overflow ∧ r.numel = .ok (2 ^ 62) ∧ c.validate r = Result.reject .overflow ∧
    r.reshape [2 ^ 31, 2 ^ 31] = Result.halt .overflow ∧ (c.launch (.unary .neg r r)).1 = Result.halt .overflow := by
  obtain ⟨s, hs⟩ : ∃ s, initial.performAll farElement = some s := Option.isSome_iff_exists.1 rfl
  have hfound : ((initial.performAll farElement).bind fun s => do
      let c ← s.context? 0
      let v ← s.tensor? "v"
      let r ← s.tensor? "r"
      return (v.numel, c.isLive v, v.device.isCpu, c.validate v, v.shape.toList, c.get v [1],
        (c.set v [1] Scalar.oneF32).1, v.canSlice 0 1 2, v.slice 0 1 2, r.numel, c.validate r,
        r.reshape [2 ^ 31, 2 ^ 31], (c.launch (.unary .neg r r)).1)) =
      some (.ok 2, true, true, Result.reject .overflow, [2], Result.halt .overflow, Result.halt .overflow, true,
        Result.halt .overflow, .ok (2 ^ 62), Result.reject .overflow, Result.halt .overflow, Result.halt .overflow) := rfl
  simp only [hs, Option.bind_eq_bind, Option.bind_some, Option.bind_eq_some_iff, Option.pure_def, Option.some.injEq,
    Prod.mk.injEq] at hfound
  obtain ⟨c, hc, v, hv, r, hr, hfound⟩ := hfound
  exact ⟨s, c, v, r, hs, hc, hv, hr, hfound⟩

end Session

end StridedTensor
