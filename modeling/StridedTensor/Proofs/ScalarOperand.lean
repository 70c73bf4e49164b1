import StridedTensor.Proofs.Acceptance
import StridedTensor.Proofs.Casting
import StridedTensor.Proofs.Storing

/-!
# Scalar operands and tensors with a single element

A kernel with a scalar operand can be replaced by one with a tensor that has been made for the scalar: from the same state
it succeeds as well, unless the allocator has placed the new element where an element cannot start, and it leaves the same
elements if elements can take the scalar as it is (`Session.Run.scalarOp_as_binary`). Otherwise the two leave what the
operation makes of two different operands, since the scalar goes to the accumulator without being cast to the type of the
elements (`Session.quarter_differs`).
-/

namespace StridedTensor

open Kernel

/-! ### The same buffer in two contexts -/

namespace Context

variable {c d : Context} {t : FloatType} {x output : Tensor}

/-- The buffer behind the tensor is the same in both contexts. -/
def Shares (c d : Context) (x : Tensor) : Prop := ∀ id, x.buffer = some id → d.arena.get? id = c.arena.get? id

namespace Shares

private theorem check_eq (h : c.Shares d x) : d.check x = c.check x := by
  unfold check
  cases hid : x.buffer with
  | none => rfl
  | some id => simp only [h id hid]

private theorem validate_eq (h : c.Shares d x) : d.validate x = c.validate x := by rw [validate, h.check_eq, validate]

private theorem ready (h : c.Shares d x) (hx : c.Ready t x) : d.Ready t x :=
  ⟨h.validate_eq.trans hx.valid, hx.contiguous, hx.type⟩

private theorem element?_eq (h : c.Shares d x) (k : Nat) : d.element? t x k = c.element? t x k := by
  unfold element? toList host
  rw [h.check_eq]

private theorem resolve_eq (h : c.Shares d x) (id : BufferId) (b : Buffer) (output : Tensor) (inPlace : Bool) :
    resolve t (d.arena.erase id) b x output inPlace = resolve t (c.arena.erase id) b x output inPlace := by
  unfold resolve
  cases hid : x.buffer with
  | none => rfl
  | some xid => simp only [Table.get?_erase, h xid hid]

end Shares

/-- Every buffer of the first context is in the second as it is. -/
def Within (c d : Context) : Prop := ∀ id b, c.arena.get? id = some b → d.arena.get? id = some b

private theorem Within.shares (h : c.Within d) (hx : c.validate x = .ok ()) : c.Shares d x := by
  intro id hid
  obtain ⟨b, -, hb, -⟩ := buffer_of_validate hx hid
  rw [h id b hb, hb]

/-- A tensor without axes that has been filled with a value of its type reads as that value. -/
private theorem get_of_fill (hshape : x.shape = .empty) {v : Scalar} (htype : v.type = x.type)
    (h : c.fill x v = (.ok (), d)) : d.validate x = .ok () ∧ d.get x [] = .ok v := by
  obtain ⟨places, hvalid, hplaces, rfl⟩ := fill_eq_storeAt h
  have hhosts := hosts_of_validate hvalid
  obtain ⟨span, hspan⟩ := hhosts.span
  have hvalid' : (c.storeAt x v places).validate x = .ok () := (validate_congr (blank_storeAt hvalid) x).trans hvalid
  have hfirst : List.Forall₂ (· < ·) [] x.shape.toList := by
    rw [hshape]
    exact .nil
  have honly : ∀ {o}, o ∈ places → o = x.place [] := by
    intro o ho
    obtain ⟨index, hi, rfl⟩ := (Tensor.mem_offsets hspan hplaces).1 ho
    rw [hshape] at hi
    rw [List.forall₂_nil_right_iff.1 hi]
  have hslice : ((c.storeAt x v places).contents x).slice (x.place []) x.type.size = (v.cast x.type).toBytes :=
    slice_storeAt hvalid (fun o ho => by rw [honly ho]; exact hhosts.inside hfirst)
      (List.pairwise_of_forall_mem_list fun o ho o' ho' => .inl ((honly ho).trans (honly ho').symm))
      ((Tensor.mem_offsets hspan hplaces).2 ⟨[], hfirst, rfl⟩)
  rw [Scalar.cast_of_type htype] at hslice
  exact ⟨hvalid', get_of_slice hvalid' htype (hhosts.elementOffset hfirst) hslice⟩

end Context

/-! ### A tensor for a scalar -/

namespace Workspace

variable {w w' : Workspace} {v : Scalar} {y : Tensor}

/-- The new tensor has the value as its only element, in a buffer of its own, and no other buffer is touched. -/
structure Boxes (w : Workspace) (v : Scalar) (y : Tensor) (w' : Workspace) : Prop where
  type : y.type = v.type
  shape : y.shape = .empty
  contiguous : y.isContiguous = .ok true
  cpu : y.device.isCpu = true
  valid : w'.context.validate y = .ok ()
  get : w'.context.get y [] = .ok v
  buffer : y.buffer = some w.resources.nextBuffer
  others : ∀ id, id ≠ w.resources.nextBuffer → w'.context.arena.get? id = w.context.arena.get? id
  settings : w'.context.settings = w.context.settings
  usable : (w.resources.allocator w.context.allocator).provider.Aligned → w'.context.Usable y

/-- Filling the tensor that has just been made stores the value and nothing else. -/
private theorem Made.boxes {device : Device} {n : Nat} {l : Layout} {b : Buffer} {r : Resources} {c : Context}
    (made : Made w .empty v.type device n l b r)
    (hfill : (w.insertNext b r).context.fill (w.nextOwner v.type device l) v = (.ok (), c)) :
    w.Boxes v (w.nextOwner v.type device l) ⟨c, (w.insertNext b r).resources⟩ := by
  obtain ⟨address, hanswer, -, hcpu, hb, -⟩ := Buffer.allocate_eq_ok made.allocate
  have hshape : (w.nextOwner v.type device l).shape = .empty := made.shape_eq
  obtain ⟨hvalid, hget⟩ := Context.get_of_fill hshape rfl hfill
  have hcontiguous := Tensor.isContiguous_of_canonical (t := w.nextOwner v.type device l) made.numel rfl made.canonical
  have hblank := (w.insertNext b r).context.blank_fill (w.nextOwner v.type device l) v
  rw [hfill] at hblank
  have hsettings := congrArg Context.settings hblank
  obtain ⟨-, contents, -, -, rfl⟩ := Context.updateHost_eq_ok hfill
  have harena := Context.get?_setContents (w.insertNext b r).context (w.nextOwner v.type device l) contents
  simp only [get?_insertNext] at harena
  refine ⟨rfl, hshape, hcontiguous, hcpu, hvalid, hget, rfl, fun id hne => ?_, hsettings, fun hp => ?_⟩
  · have hother : (w.nextOwner v.type device l).buffer ≠ some id := fun h => hne (Option.some.inj h).symm
    exact (harena id).trans (by rw [if_neg hother, if_neg hne])
  · have hown : (w.nextOwner v.type device l).buffer = some w.resources.nextBuffer := rfl
    have hnew := harena w.resources.nextBuffer
    rw [if_pos rfl, if_pos hown] at hnew
    refine ⟨hvalid, ?_, ?_, ⟨true, hcontiguous⟩, w.resources.nextBuffer, _, rfl, hnew, ?_⟩
    · rw [Tensor.numel, hshape]
      rfl
    · rw [hshape]
      decide
    · rw [hb]
      exact hp.size_dvd hanswer v.type

namespace Boxes

theorem numel (h : w.Boxes v y w') : y.numel = .ok 1 := by
  rw [Tensor.numel, h.shape]
  rfl

theorem within (h : w.Boxes v y w') (hfree : w.context.arena.get? w.resources.nextBuffer = none) :
    w.context.Within w'.context := by
  intro id b hb
  refine (h.others id ?_).trans hb
  rintro rfl
  exact Option.some_ne_none b (hb.symm.trans hfree)

theorem element? (h : w.Boxes v y w') {t : FloatType} (ht : y.type = t.element) :
    w'.context.element? t y 0 = some (Binary.ofNat t.format v.pattern) := by
  have hready : w'.context.Ready t y := ⟨h.valid, h.contiguous, ht⟩
  have hfirst : List.Forall₂ (· < ·) [] y.shape.toList := by
    rw [h.shape]
    exact .nil
  have hcell := Context.cell?_eq hready hfirst
  have hposition : Shape.position y.shape.toList [] = 0 := by
    rw [h.shape]
    rfl
  rw [Context.cell?, h.get, hposition] at hcell
  rw [Context.element?_eq hready, ← hcell]

end Boxes

theorem boxes_of_ofScalar {device : Device} (h : w.ofScalar v device = (.ok y, w')) : w.Boxes v y w' := by
  unfold ofScalar at h
  have halloc := w.allocShape_allocated .empty v.type device
  split at h
  · simp at h
  · rename_i t w₁ hmade
    rw [hmade] at halloc
    split at h
    · rename_i c hfill
      obtain ⟨ht, rfl⟩ := Prod.mk.inj h
      obtain rfl := Except.ok.inj ht
      cases halloc with
      | empty numel => exact absurd numel (by decide)
      | make made => exact made.boxes hfill
    · simp at h

end Workspace

/-! ### Both kernels from one state -/

namespace Context

variable {c c₁ d d₁ : Context} {op : BinaryOp} {x y output : Tensor} {rhs : Scalar}

/-- What the kernel with a scalar operand has found in order. -/
private theorem scalarOp_eq_ok (hs : c.strict = true) (h : c.scalarOp op x rhs output = (.ok (), c₁)) :
    ∃ t n, checkUnary x output = .ok t ∧ output.numel = .ok n ∧ (n = 0 ∨ 0 < n ∧ ∃ id b left found,
      c.Ready t x ∧ c.Ready t output ∧ output.buffer = some id ∧ c.arena.get? id = some b ∧
        resolve t (c.arena.erase id) b x output true = .ok left ∧ outputBytes t.element b output = .ok found) := by
  obtain ⟨t, n, hcheck, hn, hrun⟩ := runKernel_unlessEmpty hs h
  obtain ⟨hxc, hoc, hxt, hot, -⟩ := checkUnary_eq_ok hcheck
  refine ⟨t, n, hcheck, hn, hrun.imp_right fun ⟨hpos, hrun⟩ => ⟨hpos, ?_⟩⟩
  cases hv : c.validate x with
  | error e => simp [hv] at hrun
  | ok _ =>
    simp only [hv] at hrun
    obtain ⟨id, b, contents, hvo, hid, hb, hkernel, -⟩ := withOutput_eq_ok hrun
    obtain ⟨run, hrun, hstore⟩ := Result.bind_eq_ok.1 hkernel
    obtain ⟨left, hleft, -⟩ := Result.bind_eq_ok.1 hrun
    obtain ⟨found, hfound, -⟩ := Result.bind_eq_ok.1 hstore
    exact ⟨id, b, left, found, ⟨hv, hxc, hxt⟩, ⟨hvo, hoc, hot⟩, hid, hb, hleft, hfound⟩

/-- If the first operand and the output can be read, only the place of the single element decides. -/
private theorem writeElements_zip (op : BinaryOp) {t : FloatType} {n : Nat} {id : BufferId} {b : Buffer}
    {left : Operand (Binary t.format)} {found : Span × List UInt8} (hx : d.Ready t x) (hy : d.Ready t y)
    (ho : d.Ready t output) (hxn : x.numel = .ok n) (hn : output.numel = .ok n) (hyn : y.numel = .ok 1)
    (hid : output.buffer = some id) (hb : d.arena.get? id = some b)
    (hleft : resolve t (d.arena.erase id) b x output true = .ok left)
    (hfound : outputBytes t.element b output = .ok found) :
    (d.writeElements t output (zipKernel t op x y output 1)).1 = .ok () ∨
      (d.writeElements t output (zipKernel t op x y output 1)).1 = Result.reject (.misaligned t.element) ∧
        ¬ d.Usable y := by
  unfold writeElements
  rw [withOutput_fst ho.valid hid hb]
  rcases resolve_eq hy ho hid hb (1 != 1) with ⟨right, hright, -⟩ | hright
  · left
    obtain ⟨run, zs, hzip, hzs⟩ := exists_zipKernel op hx hy ho hxn hn hyn (.inr rfl) hid hb hleft hright
    rcases outputBytes_eq ho hid hb with hbytes | hbytes
    · simp only [hzip, hbytes, Result.ok_bind, Ready.load_eq hid hb, hzs]
      rfl
    · exact absurd (hbytes.symm.trans hfound) (Result.reject_ne_ok _ _)
  · right
    have hzip : zipKernel t op x y output 1 (d.arena.erase id) b = Result.reject (.misaligned t.element) := by
      unfold zipKernel
      rw [hleft, hright]
      rfl
    refine ⟨?_, fun hu => hu.resolve_ne_misaligned hy.contiguous hy.type ho.valid hid _ hright⟩
    rw [hzip]
    rfl

/-- Where the one kernel succeeds, the other finds the same operands in order. -/
theorem binary_of_scalarOp (hs : c.strict = true) (hd : d.strict = true) (hcd : c.Within d)
    (hcpu : y.device.isCpu = true) (hyc : y.isContiguous = .ok true) (hyt : y.type = x.type) (hyn : y.numel = .ok 1)
    (hyv : d.validate y = .ok ()) (h : c.scalarOp op x rhs output = (.ok (), c₁)) :
    (d.binary op x y output).1 = .ok () ∨
      (d.binary op x y output).1 = Result.reject (.misaligned x.type) ∧ ¬ d.Usable y := by
  obtain ⟨t, n, hcheck, hn, hrun⟩ := scalarOp_eq_ok hs h
  obtain ⟨hxc, hoc, hxt, hot, m, hxn, hon⟩ := checkUnary_eq_ok hcheck
  have hsecond : checkSecond x y = .ok () := by
    unfold checkSecond
    rw [checkOperand_eq_ok.2 ⟨hcpu, hyc⟩, checkType_eq_ok.2 hyt.symm, hyn, hxn]
    simp
  unfold binary
  simp only [hcheck, hsecond, Result.ok_bind, unlessEmpty, hn]
  rcases hrun with rfl | ⟨hpos, id, b, left, found, hx, ho, hid, hb, hleft, hfound⟩
  · exact .inl rfl
  · have hshares := hcd.shares hx.valid
    have hxd := hshares.ready hx
    have houtcome := writeElements_zip op hxd ⟨hyv, hyc, hyt.trans hxt⟩ ((hcd.shares ho.valid).ready ho) hxn hon hyn
      hid (hcd id b hb) ((hshares.resolve_eq id b output true).trans hleft) hfound
    unfold runKernel
    simp only [if_neg hpos.ne', pure, Except.pure, lenient_of_strict hd, hxd.valid, hyv, hyn, Result.ok_bind]
    rw [hxt]
    exact houtcome

/-- Either kernel combines the elements of the first operand with an operand of its own. -/
private theorem elements_of_both (hs : c.strict = true) (hd : d.strict = true) (hcd : c.Within d)
    (hyn : y.numel = .ok 1)
    (hy : ∀ t, x.type = FloatType.element t → d.element? t y 0 = some (rhs.element t))
    (h : c.scalarOp op x rhs output = (.ok (), c₁)) (h' : d.binary op x y output = (.ok (), d₁)) :
    ∃ t n, x.type = FloatType.element t ∧ output.numel = .ok n ∧ ∀ k < n, ∃ a, c.element? t x k = some a ∧
      c₁.element? t output k = some (t.combine op a (t.ofDouble rhs.toDouble)) ∧
      d₁.element? t output k = some (t.combine op a (t.widen (rhs.element t))) := by
  obtain ⟨t, n, hot, hn, hleft⟩ := runKernel_map (g := fun t a => op.apply a (t.ofDouble rhs.toDouble)) hs h
  obtain ⟨t', n', hot', hn', hright⟩ := binary_eq_ok hd h'
  obtain ⟨_, m, hcheck, hm, hready⟩ := scalarOp_eq_ok hs h
  obtain ⟨-, -, hxt, hot'', -⟩ := checkUnary_eq_ok hcheck
  obtain rfl := FloatType.element_injective (hot.symm.trans hot')
  obtain rfl := FloatType.element_injective (hot.symm.trans hot'')
  obtain rfl : n = n' := Except.ok.inj (hn.symm.trans hn')
  obtain rfl : m = n := Except.ok.inj (hm.symm.trans hn)
  refine ⟨t, m, hxt, hn, fun k hk => ?_⟩
  obtain ⟨-, -, -, -, -, hx, -⟩ := hready.resolve_left (by omega)
  have hsame := (hcd.shares hx.valid).element?_eq (t := t) k
  obtain ⟨u, hu, hleft⟩ := hleft k hk
  obtain ⟨v, hv, hright⟩ := hright k hk
  obtain ⟨a, ha, hu⟩ := Option.bind_eq_some_iff.1 hu
  refine ⟨a, ha, hleft.trans hu.symm, hright.trans ?_⟩
  rw [← hv]
  simp [KernelCall.value?, hsame, ha, hyn, hy t hxt, FloatType.combine]

end Context

/-! ### Sessions -/

namespace Session

open Workspace

variable {home : BufferId → Option Nat} {s : Session} {k : Nat} {c c₁ : Context} {op : BinaryOp} {x y o : Tensor}
  {rhs : Scalar} {device : Device} {w : Workspace}

/-- In every session that can come about, where a kernel with a scalar operand succeeds and is not skipped, the kernel
with a tensor that is made for the cast scalar is not skipped either, and succeeds if allocators give aligned answers.
Both combine the elements of the first operand, with the scalar in the accumulator or with its cast. What they leave is
the same if elements can take the scalar as it is. -/
theorem Run.scalarOp_as_binary (h : Run home s) (hc : s.context? k = some c)
    (hrun : c.launch (.scalarOp op x rhs o) = (.ok (), c₁)) (hskip : ¬ c.Skips (.scalarOp op x rhs o))
    (hy : ofScalar ⟨c, s.resources⟩ (rhs.cast x.type) device = (.ok y, w)) :
    ¬ w.context.Skips (.binary op x y o) ∧
      ((s.resources.allocator c.allocator).provider.Aligned → (w.context.launch (.binary op x y o)).1 = .ok ()) ∧
      ∀ c₂, w.context.launch (.binary op x y o) = (.ok (), c₂) → ∃ t n, x.type = FloatType.element t ∧ o.numel = .ok n ∧
        ∀ i < n, ∃ a, c.element? t x i = some a ∧
          c₁.element? t o i = some (t.combine op a (t.ofDouble rhs.toDouble)) ∧
          c₂.element? t o i = some (t.combine op a (t.widen (rhs.element t))) ∧
          (rhs.HeldBy t →
            (t.combine op a (t.ofDouble rhs.toDouble)).Alike (t.combine op a (t.widen (rhs.element t)))) := by
  have hboxes := boxes_of_ofScalar hy
  have hcw := hboxes.within (h.coherent.unknown_nextBuffer.1 k c hc)
  have hstrict : c.strictly.scalarOp op x rhs o = (.ok (), c₁.strictly) := Context.launch_strictly hrun hskip
  have htype : y.type = x.type := hboxes.type.trans (rhs.type_cast x.type)
  have hread : ∀ t, x.type = FloatType.element t → w.context.element? t y 0 = some (rhs.element t) := by
    intro t ht
    have hone := hboxes.element? (htype.trans ht)
    rwa [ht] at hone
  have houtcome : (w.context.strictly.launch (.binary op x y o)).1 = .ok () ∨
      (w.context.strictly.launch (.binary op x y o)).1 = Result.reject (.misaligned x.type) ∧
        ¬ w.context.strictly.Usable y :=
    Context.binary_of_scalarOp (c := c.strictly) rfl rfl hcw hboxes.cpu hboxes.contiguous htype hboxes.numel hboxes.valid
      hstrict
  have hunskipped : ¬ w.context.Skips (.binary op x y o) := by
    rcases houtcome with hok | ⟨hmisaligned, -⟩
    · exact (Context.launch_of_strictly hok).2
    · exact Context.not_skips_of_reject rfl hmisaligned
  refine ⟨hunskipped, fun hp => ?_, fun c₂ hok => ?_⟩
  · have husable := hboxes.usable hp
    have hok := houtcome.resolve_right fun h =>
      h.2 ⟨husable.valid, husable.numel, husable.pos, husable.contiguous, husable.buffer⟩
    exact (Context.launch_of_strictly hok).1
  · obtain ⟨t, n, hxt, hn, helements⟩ := Context.elements_of_both (c := c.strictly) (d := w.context.strictly) rfl rfl hcw
      hboxes.numel hread hstrict (Context.launch_strictly hok hunskipped)
    refine ⟨t, n, hxt, hn, fun i hi => ?_⟩
    obtain ⟨a, ha, hleft, hright⟩ := helements i hi
    exact ⟨a, ha, hleft, hright, fun hheld => t.alike_combine op a (Scalar.alike_widen_cast hheld)⟩

/-! ### A quarter in half precision -/

/-- One number, and room for another. -/
def quarter : List Event :=
  [.build {}, .command 0 (.ofList "x" .f16 [0x3400#16] [1] .cpu), .command 0 (.alloc "o" [1] .f16 .cpu)]

/-- Half precision holds the number three, and both kernels leave three quarters. -/
theorem quarter_as_binary : ∃ s c x o c₁ y w c₂, initial.performAll quarter = some s ∧ s.context? 0 = some c ∧
    s.tensor? "x" = some x ∧ s.tensor? "o" = some o ∧ (s.resources.allocator c.allocator).provider.Aligned ∧
    c.launch (.scalarOp .mul x ⟨.i32, 3#32⟩ o) = (.ok (), c₁) ∧ ¬ c.Skips (.scalarOp .mul x ⟨.i32, 3#32⟩ o) ∧
    ofScalar ⟨c, s.resources⟩ (Scalar.cast ⟨.i32, 3#32⟩ x.type) .cpu = (.ok y, w) ∧
    w.context.launch (.binary .mul x y o) = (.ok (), c₂) ∧ Scalar.HeldBy ⟨.i32, 3#32⟩ .f16 ∧
    c₁.element? .f16 o 0 = some (Binary.ofNat .half 0x3a00) ∧
    c₂.element? .f16 o 0 = some (Binary.ofNat .half 0x3a00) := by
  obtain ⟨s, c, x, o, c₁, y, w, hs, hc, hx, ho, hp, hstrict, hrun, hy, htype, hn, hleft⟩ : ∃ s c x o c₁ y w,
      initial.performAll quarter = some s ∧ s.context? 0 = some c ∧ s.tensor? "x" = some x ∧ s.tensor? "o" = some o ∧
      (s.resources.allocator c.allocator).provider = .system ∧ c.strict = true ∧
      c.launch (.scalarOp .mul x ⟨.i32, 3#32⟩ o) = (.ok (), c₁) ∧
      ofScalar ⟨c, s.resources⟩ (Scalar.cast ⟨.i32, 3#32⟩ x.type) .cpu = (.ok y, w) ∧ x.type = .f16 ∧ o.numel = .ok 1 ∧
      c₁.element? .f16 o 0 = some (Binary.ofNat .half 0x3a00) :=
    ⟨_, _, _, _, _, _, _, rfl, rfl, rfl, rfl, rfl, rfl, rfl, rfl, rfl, rfl, rfl⟩
  have haligned : (s.resources.allocator c.allocator).provider.Aligned := hp ▸ Provider.aligned_system
  have hskip : ¬ c.Skips (.scalarOp .mul x ⟨.i32, 3#32⟩ o) := fun h => Bool.noConfusion (hstrict.symm.trans h.1)
  have hheld : Scalar.HeldBy ⟨.i32, 3#32⟩ .f16 := .inr (.inr ⟨Binary.ofNat .half 0x4200, rfl⟩)
  obtain ⟨home, hreached⟩ := Run.initial.performAll hs
  obtain ⟨-, hok, hboth⟩ := hreached.scalarOp_as_binary hc hrun hskip hy
  obtain ⟨c₂, hbinary⟩ : ∃ c₂, w.context.launch (.binary .mul x y o) = (.ok (), c₂) :=
    ⟨_, Prod.ext (hok haligned) rfl⟩
  obtain ⟨t, n, hxt, hn', helements⟩ := hboth c₂ hbinary
  obtain rfl : t = .f16 := FloatType.element_injective (hxt.symm.trans htype)
  obtain rfl : 1 = n := Except.ok.inj (hn.symm.trans hn')
  obtain ⟨a, -, hscalar, hcast, halike⟩ := helements 0 Nat.one_pos
  have hvalue := Option.some.inj (hscalar.symm.trans hleft)
  -- the product is a number, so being alike is being equal
  have hright := (halike hheld).resolve_right fun h => by rw [hvalue] at h; exact Bool.noConfusion h.1
  exact ⟨s, c, x, o, c₁, y, w, c₂, hs, hc, hx, ho, haligned, hrun, hskip, hy, hbinary, hheld, hleft,
    hcast.trans (congrArg some (hright.symm.trans hvalue))⟩

/-- Times two to the power of 17 it is a number of half precision, but the factor is not, and its cast is infinite. -/
theorem quarter_differs : ∃ s c x o c₁ y w c₂, initial.performAll quarter = some s ∧ s.context? 0 = some c ∧
    s.tensor? "x" = some x ∧ s.tensor? "o" = some o ∧ c.strict = true ∧
    c.launch (.scalarOp .mul x ⟨.f32, 0x48000000#32⟩ o) = (.ok (), c₁) ∧
    ofScalar ⟨c, s.resources⟩ (Scalar.cast ⟨.f32, 0x48000000#32⟩ x.type) .cpu = (.ok y, w) ∧
    w.context.launch (.binary .mul x y o) = (.ok (), c₂) ∧
    c₁.element? .f16 o 0 = some (Binary.ofNat .half 0x7800) ∧ c₂.element? .f16 o 0 = some (Binary.infinity false) ∧
    ¬ (Binary.ofNat .half 0x7800).Alike (Binary.infinity false) := by
  refine ⟨_, _, _, _, _, _, _, _, rfl, rfl, rfl, rfl, rfl, rfl, rfl, rfl, ?_, ?_, ?_⟩
  · rfl
  · rfl
  · decide

end Session

end StridedTensor
