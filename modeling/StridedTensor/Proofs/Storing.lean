import StridedTensor.Proofs.Assignment
import StridedTensor.Proofs.Reading

/-!
# What a write changes

A value that is stored through a tensor is read back as it was stored, by every tensor that addresses the same bytes,
and no other byte of any buffer changes (`Context.stores_exactly`). One element is stored at one place. To fill a tensor
is to store at the places of all its elements, one after the other; this leaves the value in each of them unless two
elements overlap without being the same bytes (`Tensor.Tiled`).
-/

namespace StridedTensor

/-- What is stored for a scalar is read as that scalar. -/
theorem Scalar.ofBytes_toBytes (s : Scalar) : ofBytes s.type s.toBytes = .ok s := by
  unfold ofBytes toBytes
  rw [ElementType.length_encode, if_neg (by simp), ElementType.decode_encode]

/-- Two elements are the same bytes, or have no byte in common. -/
def Tensor.Tiled (t : Tensor) : Prop :=
  ∀ {index index' : List Nat} {o o' : Nat}, t.elementOffset index = .ok o → t.elementOffset index' = .ok o' →
    o = o' ∨ o + t.type.size ≤ o' ∨ o' + t.type.size ≤ o

namespace Context

variable {c c' : Context} {t u : Tensor}

/-! ### Buffers that differ in their bytes only -/

private theorem check_blank (c : Context) (t : Tensor) :
    c.blank.check t = (c.check t).map (Option.map Buffer.blank) := by
  unfold check
  cases t.validate with
  | error e => rfl
  | ok _ =>
    simp only [Result.ok_bind]
    cases t.buffer with
    | none => rfl
    | some id =>
      simp only [Workspace.get?_blank]
      cases c.arena.get? id with
      | none => rfl
      | some b =>
        have hsize : b.blank.size = b.size := by simp [Buffer.blank, Buffer.size]
        have hdevice : b.blank.device = b.device := rfl
        simp only [Option.map_some, hsize, hdevice]
        split
        · rfl
        · cases t.span with
          | error e => rfl
          | ok s =>
            simp only [Result.ok_bind]
            split <;> rfl

private theorem check_congr (h : c'.blank = c.blank) (t : Tensor) :
    (c'.check t).map (Option.map Buffer.blank) = (c.check t).map (Option.map Buffer.blank) := by
  rw [← check_blank, ← check_blank, h]

theorem validate_congr (h : c'.blank = c.blank) (t : Tensor) : c'.validate t = c.validate t := by
  have hcheck := check_congr h t
  unfold validate
  cases hold : c.check t with
  | error e =>
    cases hnew : c'.check t <;> simp_all [Except.map]
  | ok found =>
    cases hnew : c'.check t <;> simp_all [Except.map, discard, Functor.discard, Functor.mapConst]

/-- Where the bytes behind a tensor differ, its buffer is in both contexts. -/
private theorem exists_buffer_of_contents_ne (h : c'.blank = c.blank) {i : Nat}
    (hne : (c'.contents t)[i]? ≠ (c.contents t)[i]?) :
    ∃ id b b', t.buffer = some id ∧ c.arena.get? id = some b ∧ c'.arena.get? id = some b' ∧
      b'.contents[i]? ≠ b.contents[i]? := by
  obtain ⟨id, hid⟩ : ∃ id, t.buffer = some id := by
    rw [← Option.ne_none_iff_exists']
    intro hnone
    exact hne (by simp [contents, hnone])
  have hsame : (c'.arena.get? id).map Buffer.blank = (c.arena.get? id).map Buffer.blank := by
    rw [← Workspace.get?_blank, ← Workspace.get?_blank, h]
  cases hb : c.arena.get? id with
  | none =>
    rw [hb, Option.map_none, Option.map_eq_none_iff] at hsame
    exact absurd (by simp [contents, hid, hb, hsame]) hne
  | some b =>
    obtain ⟨b', hb', -⟩ := get?_of_blank hsame hb
    rw [contents_eq hid hb, contents_eq hid hb'] at hne
    exact ⟨id, b, b', hid, hb, hb', hne⟩

/-- A read looks at the bytes of its element and at nothing else in the buffers. -/
private theorem get_congr (hblank : c'.blank = c.blank) {index : List Nat}
    (h : ∀ {o}, u.elementOffset index = .ok o → ∀ i, o ≤ i → i < o + u.type.size →
      (c'.contents u)[i]? = (c.contents u)[i]?) : c'.get u index = c.get u index := by
  by_cases hi : List.Forall₂ (· < ·) index u.shape.toList
  · by_cases hvalid : c.validate u = .ok ()
    · have hold := hosts_of_validate hvalid
      have hnew := hosts_of_validate ((validate_congr hblank u).trans hvalid)
      rw [hold.get hi, hnew.get hi, Bytes.slice_congr (h (hold.elementOffset hi))]
    · -- both contexts refuse the tensor, and for the same reason
      have hcheck := check_congr hblank u
      obtain ⟨e, he⟩ : ∃ e, c.check u = .error e := by
        cases hfound : c.check u with
        | error e => exact ⟨e, rfl⟩
        | ok found => exact absurd (validate_eq_ok.2 ⟨found, hfound⟩) hvalid
      have he' : c'.check u = .error e := by
        cases hfound : c'.check u <;> simp_all [Except.map]
      unfold get host
      rw [he, he']
  · unfold get
    rw [Tensor.elementOffset_of_not_below hi]
    rfl

/-! ### Writes -/

/-- `c'` is what `c` becomes when `value` is stored through `t` at the indices for which `written` holds. -/
structure Stores (c : Context) (t : Tensor) (written : List Nat → Prop) (value : Scalar) (c' : Context) : Prop where
  /-- Buffers differ in their bytes only. -/
  blank : c'.blank = c.blank
  get : ∀ {index}, written index → c'.get t index = .ok (value.cast t.type)
  /-- Every tensor that addresses the bytes of a written element reads the value. -/
  aliases : ∀ {index o u j}, written index → t.elementOffset index = .ok o → u.buffer = t.buffer → u.type = t.type →
    c.validate u = .ok () → u.elementOffset j = .ok o → c'.get u j = .ok (value.cast t.type)
  /-- A byte that changes belongs to a written element. -/
  outside : ∀ {id b b'}, c.arena.get? id = some b → c'.arena.get? id = some b' → ∀ i, b'.contents[i]? ≠ b.contents[i]? →
    t.buffer = some id ∧ ∃ index o, written index ∧ t.elementOffset index = .ok o ∧ o ≤ i ∧ i < o + t.type.size
  /-- An element that has no byte in common with the written ones reads as before, or fails as before. -/
  others : ∀ {u j}, (∀ {index o p}, u.buffer = t.buffer → written index → t.elementOffset index = .ok o →
    u.elementOffset j = .ok p → o + t.type.size ≤ p ∨ p + u.type.size ≤ o) → c'.get u j = c.get u j

/-- What is read of an element whose bytes are those of a value. -/
theorem get_of_slice (h : c.validate u = .ok ()) {value : Scalar} {o : Nat} {j : List Nat} (htype : value.type = u.type)
    (hj : u.elementOffset j = .ok o) (hslice : (c.contents u).slice o u.type.size = value.toBytes) :
    c.get u j = .ok value := by
  obtain ⟨hi, -, rfl⟩ := Tensor.elementOffset_eq_ok.1 hj
  have hbytes := value.ofBytes_toBytes
  have hlength := (c.contents u).length_slice (u.place j) u.type.size
  rw [← hslice, htype, Scalar.ofBytes, if_neg (by simp [hlength])] at hbytes
  rw [(hosts_of_validate h).get hi, hbytes]

/-- The context after the value was written at these places of the buffer, one after the other. -/
def storeAt (c : Context) (t : Tensor) (value : Scalar) (places : List Nat) : Context :=
  c.setContents t ((c.contents t).writeAll (places.map fun o => (o, (value.cast t.type).toBytes)))

section StoreAt

variable {value : Scalar} {places : List Nat}

theorem blank_storeAt (h : c.validate t = .ok ()) : (c.storeAt t value places).blank = c.blank := by
  unfold storeAt
  cases hid : t.buffer with
  | none => simp only [setContents, hid]
  | some id =>
    obtain ⟨b, -, hb, -⟩ := buffer_of_validate h hid
    refine blank_setContents hid hb ?_
    rw [Bytes.size_writeAll, contents_eq hid hb, Buffer.size]

private theorem outside_storeAt {id : BufferId} {b b' : Buffer} (hb : c.arena.get? id = some b)
    (hb' : (c.storeAt t value places).arena.get? id = some b') {i : Nat} (hne : b'.contents[i]? ≠ b.contents[i]?) :
    t.buffer = some id ∧ ∃ o ∈ places, o ≤ i ∧ i < o + t.type.size := by
  rw [storeAt, get?_setContents, hb] at hb'
  by_cases hid : t.buffer = some id
  · rw [if_pos hid] at hb'
    obtain rfl := Option.some.inj hb'
    refine ⟨hid, ?_⟩
    by_contra hno
    apply hne
    rw [← contents_eq hid hb]
    refine Bytes.getElem?_writeAll fun p hp => ?_
    obtain ⟨o, ho, rfl⟩ := List.mem_map.1 hp
    rw [value.length_toBytes_cast]
    by_contra hin
    exact hno ⟨o, ho, by omega, by omega⟩
  · rw [if_neg hid] at hb'
    obtain rfl := Option.some.inj hb'
    exact absurd rfl hne

theorem slice_storeAt (h : c.validate t = .ok ()) (hin : ∀ o ∈ places, o + t.type.size ≤ (c.contents t).size)
    (htiled : places.Pairwise fun o o' => o = o' ∨ o + t.type.size ≤ o' ∨ o' + t.type.size ≤ o) {o : Nat}
    (ho : o ∈ places) : ((c.storeAt t value places).contents t).slice o t.type.size = (value.cast t.type).toBytes := by
  have hlength := value.length_toBytes_cast t.type
  obtain ⟨id, hid⟩ : ∃ id, t.buffer = some id := by
    rw [← Option.ne_none_iff_exists']
    intro hnone
    have hroom := hin o ho
    have hsize : (c.contents t).size = 0 := by simp [contents, hnone]
    have := t.type.size_pos
    omega
  obtain ⟨b, -, hb, -⟩ := buffer_of_validate h hid
  rw [storeAt, contents_setContents hid hb, ← hlength]
  have hagree : (places.map fun o => (o, (value.cast t.type).toBytes)).Pairwise fun p q => p = q ∨ Bytes.Apart p q := by
    rw [List.pairwise_map]
    refine htiled.imp fun {o o'} hor => ?_
    rcases hor with rfl | hapart
    · exact .inl rfl
    · right
      unfold Bytes.Apart
      rwa [hlength]
  refine Bytes.slice_writeAll hagree (fun p hp => ?_) (List.mem_map.2 ⟨o, ho, rfl⟩)
  obtain ⟨o', ho', rfl⟩ := List.mem_map.1 hp
  rw [hlength]
  exact hin o' ho'

/-- What holds of the places holds of the elements that lie there. -/
private theorem stores_storeAt (h : c.validate t = .ok ()) {written : List Nat → Prop}
    (hplaces : ∀ {o}, o ∈ places ↔ ∃ index, written index ∧ t.elementOffset index = .ok o)
    (hbelow : ∀ {index}, written index → List.Forall₂ (· < ·) index t.shape.toList)
    (htiled : places.Pairwise fun o o' => o = o' ∨ o + t.type.size ≤ o' ∨ o' + t.type.size ≤ o) :
    c.Stores t written value (c.storeAt t value places) := by
  have hhosts := hosts_of_validate h
  have hblank : (c.storeAt t value places).blank = c.blank := blank_storeAt h
  have hin : ∀ o ∈ places, o + t.type.size ≤ (c.contents t).size := by
    intro o ho
    obtain ⟨index, hi, ho⟩ := hplaces.1 ho
    obtain rfl := (Tensor.elementOffset_eq_ok.1 ho).2.2
    exact hhosts.inside (hbelow hi)
  have haliases : ∀ {index o u j}, written index → t.elementOffset index = .ok o → u.buffer = t.buffer →
      u.type = t.type → c.validate u = .ok () → u.elementOffset j = .ok o →
      (c.storeAt t value places).get u j = .ok (value.cast t.type) := by
    intro index o u j hi ho hbuffer htype hu hj
    refine get_of_slice ((validate_congr hblank u).trans hu) (by rw [Scalar.type_cast, htype]) hj ?_
    rw [htype, ← slice_storeAt h hin htiled (hplaces.2 ⟨index, hi, ho⟩)]
    unfold contents
    rw [hbuffer]
  have houtside : ∀ {id b b'}, c.arena.get? id = some b → (c.storeAt t value places).arena.get? id = some b' →
      ∀ i, b'.contents[i]? ≠ b.contents[i]? → t.buffer = some id ∧
        ∃ index o, written index ∧ t.elementOffset index = .ok o ∧ o ≤ i ∧ i < o + t.type.size := by
    intro id b b' hb hb' i hne
    obtain ⟨hid, o, ho, hle, hlt⟩ := outside_storeAt hb hb' hne
    obtain ⟨index, hi, ho⟩ := hplaces.1 ho
    exact ⟨hid, index, o, hi, ho, hle, hlt⟩
  exact {
    blank := hblank
    get := fun hi => haliases hi (hhosts.elementOffset (hbelow hi)) rfl rfl h (hhosts.elementOffset (hbelow hi))
    aliases := haliases
    outside := houtside
    others := fun hapart => get_congr hblank fun {p} hp i hlo hhi => by
      by_contra hne
      obtain ⟨id, b, b', hid, hb, hb', hne⟩ := exists_buffer_of_contents_ne hblank hne
      obtain ⟨hsame, index, o, hi, ho, hle, hlt⟩ := houtside hb hb' i hne
      have := hapart (hid.trans hsame.symm) hi ho hp
      omega }

end StoreAt

private theorem set_eq_storeAt {index : List Nat} {value : Scalar} (h : c.set t index value = (.ok (), c')) :
    ∃ o, c.validate t = .ok () ∧ t.elementOffset index = .ok o ∧ c' = c.storeAt t value [o] := by
  unfold set at h
  cases ho : t.elementOffset index with
  | error e => simp [ho] at h
  | ok o =>
    obtain ⟨hi, -, rfl⟩ := Tensor.elementOffset_eq_ok.1 ho
    rw [ho] at h
    obtain ⟨_, _, hhost, -, -⟩ := updateHost_eq_ok h
    have hvalid := validate_of_host hhost
    have hset := (hosts_of_validate hvalid).set hi value
    unfold set at hset
    rw [ho] at hset
    exact ⟨_, hvalid, rfl, (Prod.mk.inj (h.symm.trans hset)).2⟩

theorem fill_eq_storeAt {value : Scalar} (h : c.fill t value = (.ok (), c')) :
    ∃ places, c.validate t = .ok () ∧ t.offsets = .ok places ∧ c' = c.storeAt t value places := by
  obtain ⟨_, _, hhost, -, -⟩ := updateHost_eq_ok h
  have hvalid := validate_of_host hhost
  have hhosts := hosts_of_validate hvalid
  obtain ⟨places, ho, -⟩ := hhosts.offsets
  rw [hhosts.fill ho] at h
  refine ⟨places, hvalid, ho, ?_⟩
  rw [← (Prod.mk.inj h).2, storeAt, Bytes.writeAll, List.foldl_map]

theorem stores_of_set {index : List Nat} {value : Scalar} (h : c.set t index value = (.ok (), c')) :
    c.Stores t (· = index) value c' := by
  obtain ⟨o, hvalid, ho, rfl⟩ := set_eq_storeAt h
  refine stores_storeAt hvalid ?_ ?_ (List.pairwise_singleton _ _)
  · simp [ho, eq_comm]
  · rintro _ rfl
    exact (Tensor.elementOffset_eq_ok.1 ho).1

theorem stores_of_fill (htiled : t.Tiled) {value : Scalar} (h : c.fill t value = (.ok (), c')) :
    c.Stores t (List.Forall₂ (· < ·) · t.shape.toList) value c' := by
  obtain ⟨places, hvalid, ho, rfl⟩ := fill_eq_storeAt h
  have hhosts := hosts_of_validate hvalid
  obtain ⟨s, hs⟩ := hhosts.span
  have hplaces : ∀ {o}, o ∈ places ↔
      ∃ index, List.Forall₂ (· < ·) index t.shape.toList ∧ t.elementOffset index = .ok o := by
    intro o
    rw [Tensor.mem_offsets hs ho]
    exact exists_congr fun index => and_congr_right fun hi => by
      rw [hhosts.elementOffset hi, Except.ok.injEq, eq_comm]
  refine stores_storeAt hvalid hplaces id (List.pairwise_of_forall_mem_list fun o ho o' ho' => ?_)
  obtain ⟨index, -, ho⟩ := hplaces.1 ho
  obtain ⟨index', -, ho'⟩ := hplaces.1 ho'
  exact htiled ho ho'

/-- In every context, what is stored through a tensor, in one element or in all of them, is read back wherever its bytes
are addressed, and nothing else changes. -/
theorem stores_exactly (c : Context) (t : Tensor) (value : Scalar) :
    (∀ index c', c.set t index value = (.ok (), c') → c.Stores t (· = index) value c') ∧
      (t.Tiled → ∀ c', c.fill t value = (.ok (), c') →
        c.Stores t (List.Forall₂ (· < ·) · t.shape.toList) value c') :=
  ⟨fun _ _ h => stores_of_set h, fun htiled _ h => stores_of_fill htiled h⟩

theorem tiled_repeatedRows : repeatedRows.Tiled := by
  have hspan : repeatedRows.span = .ok ⟨4, 16⟩ := rfl
  have hoffsets : repeatedRows.offsets = .ok [4, 8, 12, 4, 8, 12] := rfl
  have hmem : ∀ {index o}, repeatedRows.elementOffset index = .ok o → o ∈ [4, 8, 12, 4, 8, 12] := by
    intro index o ho
    obtain ⟨hi, -, rfl⟩ := Tensor.elementOffset_eq_ok.1 ho
    exact (Tensor.mem_offsets hspan hoffsets).2 ⟨index, hi, rfl⟩
  have hplaces : ∀ o ∈ [4, 8, 12, 4, 8, 12], ∀ o' ∈ [4, 8, 12, 4, 8, 12], o = o' ∨ o + 4 ≤ o' ∨ o' + 4 ≤ o := by decide
  intro index index' o o' ho ho'
  exact hplaces o (hmem ho) o' (hmem ho')

/-- What is stored in the second of two rows that lie on top of each other is in the first one too. -/
theorem stores_repeatedRows :
    ∃ c₁ c₂, sixteenBytes.set repeatedRows [1, 2, 0] Scalar.oneF32 = (.ok (), c₁) ∧
      sixteenBytes.Stores repeatedRows (· = [1, 2, 0]) Scalar.oneF32 c₁ ∧
      c₁.get repeatedRows [0, 2, 0] = .ok Scalar.oneF32 ∧
      repeatedRows.Tiled ∧ c₁.fill repeatedRows Scalar.zeroI32 = (.ok (), c₂) ∧
      c₁.Stores repeatedRows (List.Forall₂ (· < ·) · repeatedRows.shape.toList) Scalar.zeroI32 c₂ := by
  have hset : (sixteenBytes.set repeatedRows [1, 2, 0] Scalar.oneF32).1 = .ok () := rfl
  let c₁ := (sixteenBytes.set repeatedRows [1, 2, 0] Scalar.oneF32).2
  have hfill : (c₁.fill repeatedRows Scalar.zeroI32).1 = .ok () := rfl
  have hstores := (stores_exactly sixteenBytes repeatedRows Scalar.oneF32).1 [1, 2, 0] _ (Prod.ext hset rfl)
  have hsecond : repeatedRows.elementOffset [1, 2, 0] = .ok 12 := rfl
  have hfirst : repeatedRows.elementOffset [0, 2, 0] = .ok 12 := rfl
  have hvalid : sixteenBytes.validate repeatedRows = .ok () := rfl
  exact ⟨_, _, Prod.ext hset rfl, hstores, hstores.aliases rfl hsecond rfl rfl hvalid hfirst, tiled_repeatedRows,
    Prod.ext hfill rfl, (stores_exactly c₁ repeatedRows Scalar.zeroI32).2 tiled_repeatedRows _ (Prod.ext hfill rfl)⟩

end Context

end StridedTensor
