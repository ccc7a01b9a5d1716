-- SUMMARY: Node selection obeys the list of the scheduler, and when the two paths of a process name the selected node.
import Veo.ProcHandle.Create

/-!
# The node of a process

When the job scheduler has set `_VENODELIST`, a process is created only on a node of the list. The
paths of the device and of the VEOS socket name this node as long as its number has at most four
digits and no sign.
-/

namespace Veo

open Text

/-! ## Numbers and lists of numbers -/

/-- The range of `int`. -/
def IsInt (i : Int) : Prop := -2 ^ 31 ≤ i ∧ i < 2 ^ 31

/-- The numbers in decimal with single spaces between them. -/
def nodeList (l : List Int) : List Char := [' '].intercalate (l.map ofInt)

theorem stoi_ofInt {i : Int} (h : IsInt i) : stoi (ofInt i) = .ok i := by
  rw [stoi, readInt_ofInt]
  exact if_pos h

theorem stoi_ofInt_outOfRange {i : Int} (h : ¬ IsInt i) : stoi (ofInt i) = .error .outOfRange := by
  rw [stoi, readInt_ofInt]
  exact if_neg h

theorem getlines_nodeList (l : List Int) : getlines ' ' [] (nodeList l) = l.map ofInt := by
  apply getlines_intercalate
  intro p hp
  obtain ⟨i, -, rfl⟩ := List.mem_map.mp hp
  refine ⟨ofInt_ne_nil i, fun hspace => ?_⟩
  rcases mem_ofInt hspace with hsign | hdigit
  · cases hsign
  · cases hdigit

/-! ## The search -/

/-- What the loop finds is the number of a token. -/
theorem findNode_found {venode : Int} {v : List (List Char)} (h : findNode venode v = .ok true) :
    ∃ s ∈ v, stoi s = .ok venode := by
  induction v with
  | nil => cases h
  | cons s v ih =>
      obtain ⟨i, hi, hrest⟩ := Except.bind_eq_ok.mp h
      split at hrest
      · rename_i heq
        exact ⟨s, List.mem_cons_self, heq ▸ hi⟩
      · obtain ⟨s', hs', hstoi⟩ := ih hrest
        exact ⟨s', List.mem_cons_of_mem s hs', hstoi⟩

/-- Among printed numbers the loop finds the ones that are there. -/
theorem findNode_map {l : List Int} (h : ∀ i ∈ l, IsInt i) (venode : Int) :
    findNode venode (l.map ofInt) = .ok (decide (venode ∈ l)) := by
  induction l with
  | nil => rfl
  | cons i l ih =>
      have hi : stoi (ofInt i) = .ok i := stoi_ofInt (h i List.mem_cons_self)
      have hrest := ih fun j hj => h j (List.mem_cons_of_mem i hj)
      simp only [List.map_cons, findNode, hi, hrest, bind, Except.bind]
      split
      · rename_i heq
        simp [heq]
      · rename_i hne
        simp [List.mem_cons, Ne.symm hne]

theorem searchNode_node {venode node : Int} {v : List (List Char)}
    (h : searchNode venode v = .ok (.node node)) : ∃ s ∈ v, stoi s = .ok node := by
  obtain ⟨found, hfind, hrest⟩ := Except.bind_eq_ok.mp h
  split at hrest
  · rename_i hfound
    cases hrest
    obtain ⟨s, hs, hstoi⟩ := findNode_found (hfound ▸ hfind)
    exact ⟨s, List.mem_of_mem_take hs, hstoi⟩
  · split at hrest <;> cases hrest

/-! ## Selection -/

/-- An index below the size of the vector as an `int` is an index of the vector. -/
theorem lt_of_lt_toInt32 {n : Nat} {i : Int} (hi : 0 ≤ i) (h : i < toInt32 n) : i.toNat < n := by
  have hmod := toInt32_emod (n : Int)
  have hlt := toInt32_lt (n : Int)
  omega

/-- A node is selected only if a token of the list is its number. -/
theorem selectNode_node {venode node : Int} {str : List Char} {venodenum : Option (List Char)}
    (hvenode : -1 ≤ venode) (h : selectNode venode (some str) venodenum = .ok (.node node)) :
    ∃ s ∈ getlines ' ' [] str, stoi s = .ok node := by
  simp only [selectNode] at h
  split at h
  · cases venodenum with
    | some num =>
        obtain ⟨i, -, hsearch⟩ := Except.bind_eq_ok.mp h
        exact searchNode_node hsearch
    | none =>
        simp only at h
        split at h
        · rename_i s v hv
          obtain ⟨i, hi, hret⟩ := Except.bind_eq_ok.mp h
          cases hret
          exact ⟨s, hv ▸ List.mem_cons_self, hi⟩
        · cases h
  · rename_i hne
    split at h
    · cases h
    · rename_i hsize
      obtain ⟨i, hi, hret⟩ := Except.bind_eq_ok.mp h
      cases hret
      have hlt := lt_of_lt_toInt32 (by omega) (Int.not_le.mp hsize)
      rw [List.getD_eq_getElem?_getD, List.getElem?_eq_getElem hlt, Option.getD_some] at hi
      exact ⟨_, List.getElem_mem hlt, hi⟩

/-- What is done with a selection. -/
def Selection.created (dir : List Char) : Selection → Created
  | .node venode => .of dir venode
  | .null => .null
  | .diverges => .diverges

section Create
variable {dir : List Char} {venode : Int} {venodelist venodenum : Option (List Char)}

theorem create_of_select (sel : Selection) (hvenode : -1 ≤ venode)
    (h : selectNode venode venodelist venodenum = .ok sel) :
    veoProcCreateStatic dir venode venodelist venodenum = sel.created dir := by
  unfold veoProcCreateStatic
  rw [if_neg (by omega), h]
  cases sel <;> rfl

theorem create_of_error {e : StdException} (hvenode : -1 ≤ venode)
    (h : selectNode venode venodelist venodenum = .error e) :
    veoProcCreateStatic dir venode venodelist venodenum = .null := by
  unfold veoProcCreateStatic
  rw [if_neg (by omega), h]
  cases e <;> rfl

/-- What a call that creates a process has selected. -/
theorem create_eq_create {node : Int} {ossock vedev : List Char}
    (h : veoProcCreateStatic dir venode venodelist venodenum = .create node ossock vedev) :
    -1 ≤ venode ∧ selectNode venode venodelist venodenum = .ok (.node node) ∧
      ossock = ossockPath dir node ∧ vedev = vedevPath node := by
  unfold veoProcCreateStatic at h
  split at h
  · cases h
  · rename_i hvenode
    split at h
    · rename_i heq
      cases h
      exact ⟨by omega, heq, rfl, rfl⟩
    · cases h
    · cases h
    · rename_i e heq
      cases e <;> cases h

theorem create_ne_thrown (e : StdException) :
    veoProcCreateStatic dir venode venodelist venodenum ≠ .thrown e := by
  unfold veoProcCreateStatic
  split
  · simp
  · split
    · simp [Created.of]
    · simp
    · simp
    · rename_i e' _
      cases e' <;> simp [StdException.caught]

end Create

/-! ## The list of the scheduler -/

section Listed
variable {dir : List Char} {l : List Int}

/-- The index of a node in the list. -/
theorem create_index (h : ∀ i ∈ l, IsInt i) (hlen : l.length < 2 ^ 31) {venode : Int}
    (hvenode : 0 ≤ venode) (venodenum : Option (List Char)) :
    veoProcCreateStatic dir venode (some (nodeList l)) venodenum =
      match l[venode.toNat]? with
      | some node => .of dir node
      | none => .null := by
  have hsize : toInt32 l.length = l.length := toInt32_eq_self (by omega) (by omega)
  have hne : venode ≠ -1 := by omega
  have hge : -1 ≤ venode := by omega
  cases hget : l[venode.toNat]? with
  | none =>
      have hle := List.getElem?_eq_none_iff.mp hget
      refine create_of_select .null hge ?_
      simp only [selectNode, getlines_nodeList, if_neg hne, List.length_map, hsize]
      exact if_pos (by omega)
  | some node =>
      obtain ⟨hlt, hnode⟩ := List.getElem?_eq_some_iff.mp hget
      refine create_of_select (.node node) hge ?_
      have htoken : (l.map ofInt).getD venode.toNat [] = ofInt node := by
        rw [List.getD_eq_getElem?_getD, List.getElem?_map, hget]
        rfl
      simp only [selectNode, getlines_nodeList, if_neg hne, List.length_map, hsize, htoken,
        stoi_ofInt (h node (hnode ▸ List.getElem_mem hlt))]
      exact if_neg (by omega)

/-- A list whose length is not an `int`: no index is accepted. -/
theorem create_index_long (hlo : 2 ^ 31 ≤ l.length) (hhi : l.length < 2 ^ 32) {venode : Int}
    (hvenode : 0 ≤ venode) (venodenum : Option (List Char)) :
    veoProcCreateStatic dir venode (some (nodeList l)) venodenum = .null := by
  have hmod := toInt32_emod (l.length : Int)
  have hlt := toInt32_lt (l.length : Int)
  have hne : venode ≠ -1 := by omega
  have hge : -1 ≤ venode := by omega
  refine create_of_select .null hge ?_
  simp only [selectNode, getlines_nodeList, if_neg hne, List.length_map]
  exact if_pos (by omega)

/-- Without an index and without `VE_NODE_NUMBER` the first node is selected. -/
theorem create_first (h : ∀ i ∈ l, IsInt i) :
    veoProcCreateStatic dir (-1) (some (nodeList l)) none =
      match l.head? with
      | some node => .of dir node
      | none => .null := by
  cases l with
  | nil =>
      refine create_of_select .null (by decide) ?_
      simp [selectNode, getlines_nodeList]
  | cons i l =>
      refine create_of_select (.node i) (by decide) ?_
      simp [selectNode, getlines_nodeList, stoi_ofInt (h i List.mem_cons_self), bind, Except.bind,
        pure, Except.pure]

/-- The node in `VE_NODE_NUMBER` is selected if the search finds it. -/
theorem create_member (h : ∀ i ∈ l, IsInt i) {k : Int} (hk : k ∈ l.take (2 ^ 32)) :
    veoProcCreateStatic dir (-1) (some (nodeList l)) (some (ofInt k)) = .of dir k := by
  refine create_of_select (.node k) (by decide) ?_
  have hfind := findNode_map (fun i hi => h i (List.mem_of_mem_take hi)) (l := l.take (2 ^ 32)) k
  simp only [selectNode, getlines_nodeList, stoi_ofInt (h k (List.mem_of_mem_take hk)), searchNode,
    ← List.map_take, hfind, hk, bind, Except.bind, if_true, decide_true]

theorem create_not_member (h : ∀ i ∈ l, IsInt i) (hlen : l.length < 2 ^ 32) {k : Int}
    (hk : k ∉ l) : veoProcCreateStatic dir (-1) (some (nodeList l)) (some (ofInt k)) = .null := by
  by_cases hint : IsInt k
  · refine create_of_select .null (by decide) ?_
    have hfind := findNode_map h k
    simp only [selectNode, getlines_nodeList, stoi_ofInt hint, searchNode, ← List.map_take,
      List.take_of_length_le (Nat.le_of_lt hlen), hfind, hk, bind, Except.bind, if_true,
      List.length_map, hlen, decide_false]
    rfl
  · -- `stoi` throws, which is caught
    refine create_of_error (e := .outOfRange) (by decide) ?_
    simp only [selectNode, stoi_ofInt_outOfRange hint, if_true]
    rfl

end Listed

/-- Node selection obeys the list of the scheduler. -/
structure ObeysList (dir : List Char) : Prop where
  /-- A process is created only on a node whose number is a token of the list. -/
  token : ∀ venode str venodenum node ossock vedev,
    veoProcCreateStatic dir venode (some str) venodenum = .create node ossock vedev →
      ∃ s ∈ getlines ' ' [] str, stoi s = .ok node
  /-- A number that is not negative is an index of the list, if its length is an `int`. -/
  index : ∀ (l : List Int) venode venodenum, (∀ i ∈ l, IsInt i) → l.length < 2 ^ 31 → 0 ≤ venode →
    veoProcCreateStatic dir venode (some (nodeList l)) venodenum =
      match l[venode.toNat]? with
      | some node => .of dir node
      | none => .null
  /-- For -1 it is the first node, -/
  first : ∀ l : List Int, (∀ i ∈ l, IsInt i) →
    veoProcCreateStatic dir (-1) (some (nodeList l)) none =
      match l.head? with
      | some node => .of dir node
      | none => .null
  /-- or the node in `VE_NODE_NUMBER`, if it is in the list. -/
  member : ∀ (l : List Int) k, (∀ i ∈ l, IsInt i) → k ∈ l.take (2 ^ 32) →
    veoProcCreateStatic dir (-1) (some (nodeList l)) (some (ofInt k)) = .of dir k
  notMember : ∀ (l : List Int) k, (∀ i ∈ l, IsInt i) → l.length < 2 ^ 32 → k ∉ l →
    veoProcCreateStatic dir (-1) (some (nodeList l)) (some (ofInt k)) = .null
  /-- A number below -1 always fails. -/
  negative : ∀ venode venodelist venodenum, venode < -1 →
    veoProcCreateStatic dir venode venodelist venodenum = .null
  /-- No exception of `stoi` escapes. -/
  caught : ∀ venode venodelist venodenum e,
    veoProcCreateStatic dir venode venodelist venodenum ≠ .thrown e

theorem node_obeys_list (dir : List Char) : ObeysList dir where
  token := by
    intro venode str venodenum node ossock vedev h
    obtain ⟨hvenode, hselect, -⟩ := create_eq_create h
    exact selectNode_node hvenode hselect
  index := fun _ _ venodenum h hlen hvenode => create_index h hlen hvenode venodenum
  first := fun _ h => create_first h
  member := fun _ _ h hk => create_member h hk
  notMember := fun _ _ h hlen hk => create_not_member h hlen hk
  negative := fun _ _ _ hvenode => if_pos hvenode
  caught := fun _ _ _ e => create_ne_thrown e

/-- The length of a list of 2 ^ 31 nodes is not an `int`: its first node is not selected. -/
theorem node_index_long :
    ∃ l : List Int, (∀ i ∈ l, IsInt i) ∧ l.length = 2 ^ 31 ∧ l[0]? = some 3 ∧
      veoProcCreateStatic ['/', 'v', 'a', 'r'] 0 (some (nodeList l)) none = .null := by
  have hlen : (List.replicate (2 ^ 31) (3 : Int)).length = 2 ^ 31 := List.length_replicate
  refine ⟨List.replicate (2 ^ 31) 3, fun i hi => ?_, hlen, ?_, ?_⟩
  · rw [List.eq_of_mem_replicate hi]
    exact ⟨by decide, by decide⟩
  · rw [List.getElem?_replicate]
    exact if_pos (by decide)
  · exact create_index_long (by rw [hlen]) (by rw [hlen]; decide) (by decide) none

/-! ## The paths -/

/-- The paths lead to the device and to the VEOS of the node. -/
structure PathsAgree (node : Int) (ossock vedev : List Char) : Prop where
  device : veNumber vedev = node
  socket : getVeNodeNum 0 (baseName ossock) = .ok node

/-- Four characters of the number are left in the path of the device. -/
theorem veNumber_vedevPath (node : Int) :
    veNumber (vedevPath node) = (readInt ((ofInt node).take 4)).getD (-1) := by
  have hpath : vedevPath node = veDev ++ (ofInt node).take 4 := by
    simp [vedevPath, snprintf, veDev]
  have hprefix : veDev.isPrefixOf (vedevPath node) = true := by
    rw [hpath, List.isPrefixOf_iff_prefix]
    exact List.prefix_append _ _
  rw [veNumber, if_pos hprefix, hpath, List.drop_left]

section Digits
variable {node : Int}

theorem ofInt_of_nonneg (h : 0 ≤ node) : ofInt node = Nat.toDigits 10 node.natAbs :=
  if_neg (Int.not_lt.mpr h)

theorem length_ofInt_le (h : 0 ≤ node) (hle : node ≤ 9999) : (ofInt node).length ≤ 4 := by
  rw [ofInt_of_nonneg h, Nat.length_toDigits_le_iff (by decide) (by decide)]
  omega

/-- The number of a node with more than four digits is cut off. -/
theorem veNumber_lt (h : 0 ≤ node) : veNumber (vedevPath node) ≤ 9999 := by
  have hdigits : Digits ((ofInt node).take 4) := by
    rw [ofInt_of_nonneg h]
    exact digits_take (digits_toDigits _) 4
  have hne : (ofInt node).take 4 ≠ [] := by
    simp [ofInt_ne_nil]
  have hlt := ofDigitChars_lt hdigits
  have hpow : 10 ^ ((ofInt node).take 4).length ≤ 10 ^ 4 :=
    Nat.pow_le_pow_right (by decide) (by simp [List.length_take])
  rw [veNumber_vedevPath, readInt_digits hdigits hne, Option.getD_some]
  omega

end Digits

/-- The number that is read from a base name is not negative. -/
theorem getVeNodeNum_nonneg {s : List Char} {n m : Int} (hn : 0 ≤ n)
    (h : getVeNodeNum n s = .ok m) : 0 ≤ m := by
  induction s generalizing n with
  | nil =>
      cases h
      exact hn
  | cons c s ih =>
      unfold getVeNodeNum at h
      split at h
      · rename_i hdigit
        obtain ⟨n', hcheck, hrest⟩ := Except.bind_eq_ok.mp h
        obtain ⟨-, rfl⟩ := checkInt_eq_ok.mp hcheck
        simp only [Char.isDigit, Bool.and_eq_true, decide_eq_true_eq] at hdigit
        have hlo : 48 ≤ c.toNat := hdigit.1
        exact ih (by omega) hrest
      · split at h
        · cases h
          exact hn
        · exact ih hn h

/-- The digits before the dot are read. -/
theorem getVeNodeNum_digits {ds s : List Char} (hds : Digits ds) {n : Nat}
    (h : Nat.ofDigitChars 10 ds n < 2 ^ 31) :
    getVeNodeNum n (ds ++ '.' :: s) = .ok (Nat.ofDigitChars 10 ds n : Int) := by
  induction ds generalizing n with
  | nil => rfl
  | cons c ds ih =>
      have hc := hds c List.mem_cons_self
      have hrest := fun d hd => hds d (List.mem_cons_of_mem c hd)
      rw [Nat.ofDigitChars_cons] at h ⊢
      have hlo : 48 ≤ c.toNat := by
        simp only [Char.isDigit, Bool.and_eq_true, decide_eq_true_eq] at hc
        exact hc.1
      have hzero : '0'.toNat = 48 := rfl
      -- the number grows with every digit
      have hle : 10 * n + (c.toNat - '0'.toNat) ≤
          Nat.ofDigitChars 10 ds (10 * n + (c.toNat - '0'.toNat)) := by
        rw [Nat.ofDigitChars_eq_ofDigitChars_zero]
        exact Nat.le_trans (Nat.le_mul_of_pos_left _ (Nat.pow_pos (by decide)))
          (Nat.le_add_right _ _)
      have hcheck : checkInt (10 * n + (c.toNat - 48)) =
          .ok ((10 * n + (c.toNat - '0'.toNat) : Nat) : Int) :=
        checkInt_eq_ok.mpr ⟨by omega, by omega⟩
      rw [List.cons_append, getVeNodeNum, if_pos hc, hcheck]
      exact ih hrest h

theorem baseName_append {dir name : List Char} (h : '/' ∉ name) :
    baseName (dir ++ '/' :: name) = name := by
  have hname : ∀ c ∈ name.reverse, decide (c ≠ '/') = true := by
    intro c hc
    simp only [ne_eq, decide_eq_true_eq]
    rintro rfl
    exact h (List.mem_reverse.mp hc)
  simp only [baseName, List.reverse_append, List.reverse_cons, List.append_assoc]
  rw [List.takeWhile_append_of_pos hname]
  simp

/-- Numbers of up to four digits survive in the path of the socket. -/
theorem getVeNodeNum_ossockPath (dir : List Char) {node : Int} (h : 0 ≤ node) (hle : node ≤ 9999) :
    getVeNodeNum 0 (baseName (ossockPath dir node)) = .ok node := by
  have hlen := length_ofInt_le h hle
  have hpath : ossockPath dir node =
      dir ++ '/' :: (['v', 'e', 'o', 's'] ++ ofInt node ++ sockSuffix) := by
    unfold ossockPath snprintf
    rw [List.take_of_length_le]
    · simp [veosSock]
    · simp only [List.length_append, veosSock, sockSuffix, List.length_cons, List.length_nil]
      omega
  have hslash : '/' ∉ ['v', 'e', 'o', 's'] ++ ofInt node ++ sockSuffix := by
    intro hmem
    simp only [List.mem_append, sockSuffix] at hmem
    rcases hmem with (hmem | hmem) | hmem
    · revert hmem
      decide
    · rcases mem_ofInt hmem with hsign | hdigit
      · cases hsign
      · cases hdigit
    · revert hmem
      decide
  rw [hpath, baseName_append hslash, ofInt_of_nonneg h]
  have hvalue : Nat.ofDigitChars 10 (Nat.toDigits 10 node.natAbs) 0 < 2 ^ 31 := by
    rw [Nat.ofDigitChars_ten_toDigits]
    omega
  have hread := getVeNodeNum_digits (digits_toDigits node.natAbs) hvalue
    (s := ['s', 'o', 'c', 'k'])
  rw [Nat.ofDigitChars_ten_toDigits] at hread
  have hnode : (node.natAbs : Int) = node := by omega
  rw [hnode] at hread
  exact hread

/-- The paths of a process that is created lead to the device and to the VEOS of the selected node
    exactly if its number is not negative and has at most four digits. -/
theorem paths_agree_iff {dir : List Char} {venode node : Int}
    {venodelist venodenum : Option (List Char)} {ossock vedev : List Char}
    (h : veoProcCreateStatic dir venode venodelist venodenum = .create node ossock vedev) :
    PathsAgree node ossock vedev ↔ 0 ≤ node ∧ node ≤ 9999 := by
  obtain ⟨-, -, rfl, rfl⟩ := create_eq_create h
  constructor
  · rintro ⟨hdevice, hsocket⟩
    have hnonneg := getVeNodeNum_nonneg (by decide) hsocket
    have hle := veNumber_lt hnonneg
    exact ⟨hnonneg, hdevice ▸ hle⟩
  · rintro ⟨hnonneg, hle⟩
    refine ⟨?_, getVeNodeNum_ossockPath dir hnonneg hle⟩
    rw [veNumber_vedevPath, List.take_of_length_le (length_ofInt_le hnonneg hle), readInt_ofInt]
    rfl

/-- The second node of a list, whose number has two digits. -/
theorem paths_agree_twelve :
    ∃ ossock vedev, veoProcCreateStatic ['/', 'v', 'a', 'r'] 1 (some ['7', ' ', '1', '2']) none =
      .create 12 ossock vedev ∧ PathsAgree 12 ossock vedev := by
  have hcreate : veoProcCreateStatic ['/', 'v', 'a', 'r'] 1 (some ['7', ' ', '1', '2']) none =
      .of ['/', 'v', 'a', 'r'] 12 := by decide
  exact ⟨_, _, hcreate, (paths_agree_iff hcreate).mpr (by decide)⟩

/-- `VE_NODE_NUMBER` is 12345: the process is created on the device 1234 and on the VEOS 12345. It
    is -5: the process is created on the VEOS 5. -/
theorem paths_disagree :
    (∃ ossock vedev, veoProcCreateStatic ['/', 'v', 'a', 'r'] (-1) none
      (some ['1', '2', '3', '4', '5']) = .create 12345 ossock vedev ∧ veNumber vedev = 1234 ∧
      getVeNodeNum 0 (baseName ossock) = .ok 12345 ∧ ¬ PathsAgree 12345 ossock vedev) ∧
    ∃ ossock vedev, veoProcCreateStatic ['/', 'v', 'a', 'r'] (-1) none (some ['-', '5']) =
      .create (-5) ossock vedev ∧ veNumber vedev = -5 ∧
      getVeNodeNum 0 (baseName ossock) = .ok 5 ∧ ¬ PathsAgree (-5) ossock vedev := by
  constructor
  · refine ⟨ossockPath ['/', 'v', 'a', 'r'] 12345, vedevPath 12345, by decide, by decide, by decide,
      fun hagree => ?_⟩
    exact absurd hagree.device (by decide)
  · refine ⟨ossockPath ['/', 'v', 'a', 'r'] (-5), vedevPath (-5), by decide, by decide, by decide,
      fun hagree => ?_⟩
    exact absurd hagree.socket (by decide)

end Veo
