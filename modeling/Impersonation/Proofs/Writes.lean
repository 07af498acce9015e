import Impersonation.Proofs.Rooted

namespace Impersonation

/-- A user's write to a node. -/
structure Writing where
  who : Ids
  path : Path
  offset : UInt64
  data : Bytes

namespace Writing

def stop (w : Writing) : Nat :=
  w.offset.toNat + w.data.length

def covers (w : Writing) (i : Nat) : Bool :=
  w.offset.toNat ≤ i && i < w.stop

def byte (w : Writing) (i : Nat) : UInt8 :=
  w.data.getD (i - w.offset.toNat) 0

def request (w : Writing) : Request :=
  .write w.path w.offset w.data

/-- No byte is covered by both. -/
def Apart (v w : Writing) : Prop :=
  ∀ i, ¬ (v.covers i ∧ w.covers i)

def apply (w : Writing) (contents : Bytes) : Bytes :=
  Tree.overwrite contents w.offset.toNat w.data

def onto (w : Writing) (n : Node) : Node :=
  { stat := { n.stat with size := (w.apply n.data).length }, data := w.apply n.data }

/-- The last of the writes that covers a byte. -/
def lastOver (ws : List Writing) (i : Nat) : Option Writing :=
  ws.reverse.find? (·.covers i)

variable {v w : Writing} {contents : Bytes} {i : Nat}

theorem covers_iff : w.covers i ↔ w.offset.toNat ≤ i ∧ i < w.stop := by
  simp [covers]

theorem length_apply (w : Writing) (contents : Bytes) :
    (w.apply contents).length = max contents.length w.stop := by
  simp only [apply, Tree.overwrite, List.length_append, List.length_take, List.length_replicate,
    List.length_drop, stop]
  omega

/-- A byte that is not covered stays, and the gap between the old end and the offset is zero. -/
theorem getD_apply (w : Writing) (contents : Bytes) (i : Nat) :
    (w.apply contents).getD i 0 = if w.covers i then w.byte i else contents.getD i 0 := by
  have front : (contents.take w.offset.toNat ++
      List.replicate (w.offset.toNat - contents.length) 0).length = w.offset.toNat := by
    simp only [List.length_append, List.length_take, List.length_replicate]
    omega
  simp only [apply, Tree.overwrite, List.getD_eq_getElem?_getD]
  by_cases low : i < w.offset.toNat
  · have bare : ¬ w.covers i := fun h => by
      have := (covers_iff.mp h).1
      omega
    rw [if_neg bare, List.getElem?_append_left (by simp only [List.length_append, front]; omega),
      List.getElem?_append_left (by omega)]
    by_cases inside : i < contents.length
    · rw [List.getElem?_append_left (by simp only [List.length_take]; omega), List.getElem?_take,
        if_pos low]
    · have full : contents.length ≤ w.offset.toNat := by omega
      rw [List.take_of_length_le full, List.getElem?_append_right (by omega),
        List.getElem?_eq_none (by omega : contents.length ≤ i), List.getElem?_replicate,
        if_pos (by omega)]
      rfl
  · by_cases high : i < w.stop
    · have covered : w.covers i := covers_iff.mpr ⟨by omega, high⟩
      have inside : i - w.offset.toNat < w.data.length := by
        unfold stop at high
        omega
      have before : i < (contents.take w.offset.toNat ++
          List.replicate (w.offset.toNat - contents.length) 0 ++ w.data).length := by
        simp only [List.length_append, front] at *
        omega
      rw [if_pos covered, List.getElem?_append_left before, List.getElem?_append_right (by omega),
        front, byte, List.getD_eq_getElem?_getD]
    · have bare : ¬ w.covers i := fun h => high (covers_iff.mp h).2
      have past : (contents.take w.offset.toNat ++
          List.replicate (w.offset.toNat - contents.length) 0 ++ w.data).length = w.stop := by
        rw [List.length_append, front, stop]
      rw [if_neg bare, List.getElem?_append_right (by omega), List.getElem?_drop, past]
      congr 2
      unfold stop at *
      omega

/-- Contents are their length and their bytes. -/
theorem contents_ext {a b : Bytes} (length : a.length = b.length)
    (bytes : ∀ i, a.getD i 0 = b.getD i 0) : a = b := by
  refine List.ext_getElem length fun i ha hb => ?_
  simpa [List.getD_eq_getElem?_getD, ha, hb] using bytes i

theorem apply_comm (apart : v.Apart w) (contents : Bytes) :
    v.apply (w.apply contents) = w.apply (v.apply contents) := by
  refine contents_ext ?_ fun i => ?_
  · simp only [length_apply]
    omega
  · simp only [getD_apply]
    by_cases hv : v.covers i
    · have hw : ¬ w.covers i := fun hw => apart i ⟨hv, hw⟩
      simp only [if_pos hv, if_neg hw]
    · simp only [if_neg hv]

theorem apply_apply (w : Writing) (contents : Bytes) :
    w.apply (w.apply contents) = w.apply contents := by
  refine contents_ext ?_ fun i => ?_
  · simp only [length_apply]
    omega
  · simp only [getD_apply]
    split <;> rfl

theorem onto_comm (apart : v.Apart w) (n : Node) : v.onto (w.onto n) = w.onto (v.onto n) := by
  simp only [onto, apply_comm apart]

theorem onto_onto (w : Writing) (n : Node) : w.onto (w.onto n) = w.onto n := by
  simp only [onto, apply_apply]

variable (ws : List Writing) (n : Node)

theorem length_foldl_onto :
    (ws.foldl (fun n w => w.onto n) n).data.length =
      ws.foldl (fun length w => max length w.stop) n.data.length := by
  induction ws generalizing n with
  | nil => rfl
  | cons w ws ih =>
    rw [List.foldl_cons, List.foldl_cons, ih, onto, length_apply]

theorem getD_foldl_onto (i : Nat) :
    (ws.foldl (fun n w => w.onto n) n).data.getD i 0 =
      (lastOver ws i).elim (n.data.getD i 0) (·.byte i) := by
  induction ws generalizing n with
  | nil => rfl
  | cons w ws ih =>
    rw [List.foldl_cons, ih, onto, getD_apply, lastOver, lastOver, List.reverse_cons,
      List.find?_append]
    cases ws.reverse.find? (·.covers i) with
    | some later => rfl
    | none => by_cases h : w.covers i <;> simp [h]

end Writing

def FileStat.rights (s : FileStat) : FileStat :=
  { s with size := 0 }

theorem FileStat.isDir_rights (s : FileStat) : s.rights.isDir = s.isDir := rfl

theorem FileStat.allows_rights (s : FileStat) (who : Ids) (want : Access) :
    s.rights.allows who want = s.allows who want := rfl

namespace Tree

variable {t next : Tree} {p q : Path} {n m : Node} {v w : Writing} {ws : List Writing}

def Wrote (t : Tree) (w : Writing) (next : Tree) : Prop :=
  t.perform w.who w.request = (.finished (.written w.data.length), next)

theorem perform_write_iff {count : Nat} :
    t.perform w.who w.request = (.finished (.written count), next) ↔
      t.write w.who w.path w.offset w.data = (.finished (.ok count), next) := by
  simp only [Writing.request, perform]
  rcases t.write w.who w.path w.offset w.data with ⟨⟨f | c⟩ | reason, after⟩
  · simp [Except.map, Response.ofResult, Response.ofFault]
  · simp [Except.map, Response.ofResult]
  · simp

theorem write_eq_ok_iff {count : Nat} :
    t.write w.who w.path w.offset w.data = (.finished (.ok count), next) ↔
      count = w.data.length ∧ ∃ n, t.writable w.who w.path = .ok n ∧ writeCrash? w.stop = none ∧
        next = { t with nodes := t.nodes.put w.path (w.onto n) } := by
  unfold write
  cases found : t.writable w.who w.path with
  | error f => simp
  | ok n =>
    have stop : w.offset.toNat + w.data.length = w.stop := rfl
    have left : t.written w.path n w.offset.toNat w.data =
      { t with nodes := t.nodes.put w.path (w.onto n) } := rfl
    dsimp only
    rw [stop, left]
    cases writeCrash? w.stop with
    | some reason => simp
    | none => simp [eq_comm]

theorem wrote_iff : t.Wrote w next ↔
    ∃ n, t.writable w.who w.path = .ok n ∧ writeCrash? w.stop = none ∧
      next = { t with nodes := t.nodes.put w.path (w.onto n) } :=
  perform_write_iff.trans (write_eq_ok_iff.trans (and_iff_right rfl))

/-- The same nodes, with the same rights to each. -/
def SameRights (t next : Tree) : Prop :=
  next.stuck = t.stuck ∧
    ∀ q, (next.find? q).map (·.stat.rights) = (t.find? q).map (·.stat.rights)

theorem SameRights.symm (h : t.SameRights next) : next.SameRights t :=
  ⟨h.1.symm, fun q => (h.2 q).symm⟩

theorem SameRights.checkSearch_eq (h : t.SameRights next) (who : Ids) (p : Path) :
    next.checkSearch who p = t.checkSearch who p := by
  have alike : next.checkDirectory who = t.checkDirectory who := by
    funext dir
    have same := h.2 dir
    unfold checkDirectory
    cases hn : next.find? dir <;> cases ht : t.find? dir <;> rw [hn, ht] at same
    case some.some m n =>
      have rights : m.stat.rights = n.stat.rights := Option.some.inj same
      simp only [← FileStat.isDir_rights m.stat, ← FileStat.allows_rights m.stat, rights,
        FileStat.isDir_rights, FileStat.allows_rights]
    all_goals cases same
  rw [checkSearch, checkSearch, alike]

/-- Who may write to a node may do so in a tree that gives the same rights. -/
theorem SameRights.writable (h : t.SameRights next) {who : Ids} (may : t.writable who p = .ok n)
    (found : next.find? p = some m) : next.writable who p = .ok m := by
  obtain ⟨free, reached, allowed⟩ := writable_eq_ok may
  have there := reach_eq_ok reached
  obtain ⟨_, searched, -⟩ := bind_eq_ok reached
  have rights : m.stat.rights = n.stat.rights := by
    have same := h.2 p
    rw [found, there] at same
    exact Option.some.inj same
  have allowed' : m.stat.allows who .write := by
    rw [← FileStat.allows_rights, rights, FileStat.allows_rights, allowed]
  have reached' : next.reach who p = .ok m := by
    rw [reach, h.checkSearch_eq, searched, found]
    rfl
  have free' : next.unlocked = .ok () := by
    rw [unlocked, h.1, free]
    rfl
  rw [Tree.writable, free', reached']
  exact if_pos allowed'

theorem sameRights_put (found : t.find? p = some n) (w : Writing) :
    t.SameRights { t with nodes := t.nodes.put p (w.onto n) } := by
  refine ⟨rfl, fun q => ?_⟩
  rw [find?, Nodes.find?_put]
  split
  next same =>
    rw [← find?_congr same, found]
    rfl
  next => rfl

theorem find?_of_writable {who : Ids} (may : t.writable who p = .ok n) : t.find? p = some n :=
  reach_eq_ok (writable_eq_ok may).2.1

/-- A write finds the node at its path, and puts back what it makes of it. -/
theorem Wrote.node (h : t.Wrote w next) (same : w.path.same p) (found : t.find? p = some n) :
    next.find? p = some (w.onto n) ∧ ∀ q, ¬ p.same q → next.find? q = t.find? q := by
  obtain ⟨n', may, -, rfl⟩ := wrote_iff.mp h
  have there := find?_of_writable may
  rw [find?_congr same, found] at there
  obtain rfl := Option.some.inj there
  refine ⟨?_, fun q apart => ?_⟩
  · rw [find?, Nodes.find?_put, if_pos same]
  · have apart' : ¬ w.path.same q := fun h => apart (by
      rw [Path.same_iff] at *
      exact same.symm.trans h)
    rw [find?, Nodes.find?_put, if_neg apart']
    rfl

theorem Wrote.ordered (h : t.Wrote w next) (ordered : t.nodes.Ordered) : next.nodes.Ordered := by
  obtain ⟨n, -, -, rfl⟩ := wrote_iff.mp h
  exact ordered.put _ _

/-- Two writes that do not meet may change places. -/
theorem Wrote.swap {mid last : Tree} (h : t.Wrote v mid) (h' : mid.Wrote w last)
    (ordered : t.nodes.Ordered) (apart : v.Apart w) (same : v.path.same w.path) :
    ∃ mid, t.Wrote w mid ∧ mid.Wrote v last := by
  obtain ⟨n, mayV, boundV, rfl⟩ := wrote_iff.mp h
  obtain ⟨m, mayW, boundW, rfl⟩ := wrote_iff.mp h'
  have same' : w.path.same v.path := Path.same_iff.mpr (Path.same_iff.mp same).symm
  have foundV := find?_of_writable mayV
  have foundW : t.find? w.path = some n := (find?_congr same t).symm.trans foundV
  obtain rfl : m = v.onto n := by
    have found := find?_of_writable mayW
    rw [find?, Nodes.find?_put, if_pos same] at found
    exact (Option.some.inj found).symm
  have mayW' : t.writable w.who w.path = .ok n :=
    (sameRights_put foundV v).symm.writable mayW foundW
  have mayV' : Tree.writable { t with nodes := t.nodes.put w.path (w.onto n) } v.who v.path =
      .ok (w.onto n) := by
    refine (sameRights_put foundW w).writable mayV ?_
    rw [find?, Nodes.find?_put, if_pos same']
  refine ⟨_, wrote_iff.mpr ⟨n, mayW', boundW, rfl⟩, wrote_iff.mpr ⟨_, mayV', boundV, ?_⟩⟩
  have nodes : (t.nodes.put v.path (v.onto n)).put w.path (w.onto (v.onto n)) =
      (t.nodes.put w.path (w.onto n)).put v.path (v.onto (w.onto n)) := by
    rw [ordered.put_congr foundV same, ordered.put_put foundW, ordered.put_congr foundW same',
      ordered.put_congr foundW same', ordered.put_put foundV, Writing.onto_comm apart]
  simp only [nodes]

/-- The last write may be repeated, and changes nothing. -/
theorem Wrote.again (h : t.Wrote w next) (ordered : t.nodes.Ordered) : next.Wrote w next := by
  obtain ⟨n, may, bound, rfl⟩ := wrote_iff.mp h
  have found := find?_of_writable may
  have may' : Tree.writable { t with nodes := t.nodes.put w.path (w.onto n) } w.who w.path =
      .ok (w.onto n) :=
    (sameRights_put found w).writable may (find?_put t w.path _)
  refine wrote_iff.mpr ⟨_, may', bound, ?_⟩
  simp only [ordered.put_put found, Writing.onto_onto]

def WroteAll (t : Tree) : List Writing → Tree → Prop
  | [], last => last = t
  | w :: ws, last => ∃ next, t.Wrote w next ∧ next.WroteAll ws last

theorem wroteAll_append {vs : List Writing} {last : Tree} :
    t.WroteAll (vs ++ ws) last ↔ ∃ mid, t.WroteAll vs mid ∧ mid.WroteAll ws last := by
  induction vs generalizing t with
  | nil => simp [WroteAll]
  | cons v vs ih =>
    simp only [List.cons_append, WroteAll, ih]
    constructor
    · rintro ⟨next, first, mid, front, back⟩
      exact ⟨mid, ⟨next, first, front⟩, back⟩
    · rintro ⟨mid, ⟨next, first, front⟩, back⟩
      exact ⟨next, first, mid, front, back⟩

theorem WroteAll.ordered (h : t.WroteAll ws next) (ordered : t.nodes.Ordered) :
    next.nodes.Ordered := by
  induction ws generalizing t with
  | nil =>
    obtain rfl : next = t := h
    exact ordered
  | cons w ws ih =>
    obtain ⟨mid, first, rest⟩ := h
    exact ih rest (first.ordered ordered)

theorem WroteAll.node (h : t.WroteAll ws next) (same : ∀ w ∈ ws, w.path.same p)
    (found : t.find? p = some n) :
    next.find? p = some (ws.foldl (fun n w => w.onto n) n) ∧
      ∀ q, ¬ p.same q → next.find? q = t.find? q := by
  induction ws generalizing t n with
  | nil =>
    obtain rfl : next = t := h
    exact ⟨found, fun _ _ => rfl⟩
  | cons w ws ih =>
    obtain ⟨mid, first, rest⟩ := h
    obtain ⟨node, elsewhere⟩ := first.node (same w List.mem_cons_self) found
    obtain ⟨last, elsewhere'⟩ := ih rest (fun v mem => same v (List.mem_cons_of_mem _ mem)) node
    exact ⟨last, fun q apart => (elsewhere' q apart).trans (elsewhere q apart)⟩

theorem getElem?_eq_getD {contents : Bytes} {i : Nat} (h : i < contents.length) :
    contents[i]? = some (contents.getD i 0) := by
  simp [List.getD_eq_getElem?_getD, h]

/-- A write that succeeds answers with the number of its bytes; it puts them where they belong,
fills a gap before them with zeros, and changes nothing else. After many writes to a node each byte
is the one that was written last; neighbours among them that do not meet may change places, and the
last one may be repeated. -/
theorem writes_compose (ordered : t.nodes.Ordered) (found : t.find? p = some n) :
    (∀ (w : Writing) next count, w.path.same p →
      t.write w.who w.path w.offset w.data = (.finished (.ok count), next) →
      count = w.data.length ∧
        t.perform w.who w.request = (.finished (.written count), next) ∧
        (∃ m, next.find? p = some m ∧ m.data.length = max n.data.length w.stop ∧
          (∀ i < m.data.length,
            m.data[i]? = some (if w.covers i then w.byte i else n.data.getD i 0)) ∧
          m.stat = { n.stat with size := m.data.length }) ∧
        ∀ q, ¬ p.same q → next.find? q = t.find? q) ∧
    ∀ (ws : List Writing) last, (∀ w ∈ ws, w.path.same p) → t.WroteAll ws last →
      (∃ m, last.find? p = some m ∧
        m.data.length = ws.foldl (fun length w => max length w.stop) n.data.length ∧
        ∀ i < m.data.length,
          m.data[i]? = some ((Writing.lastOver ws i).elim (n.data.getD i 0) (·.byte i))) ∧
      (∀ q, ¬ p.same q → last.find? q = t.find? q) ∧
      (∀ front v w back, ws = front ++ v :: w :: back → v.Apart w →
        t.WroteAll (front ++ w :: v :: back) last) ∧
      ∀ front w, ws = front ++ [w] → last.Wrote w last := by
  refine ⟨fun w next count same wrote => ?_, fun ws last same wrote => ⟨?_, ?_, ?_, ?_⟩⟩
  · obtain ⟨rfl, -⟩ := write_eq_ok_iff.mp wrote
    have answered := perform_write_iff.mpr wrote
    obtain ⟨node, elsewhere⟩ := Wrote.node answered same found
    refine ⟨rfl, answered, ⟨w.onto n, node, w.length_apply n.data, fun i inside => ?_, rfl⟩,
      elsewhere⟩
    rw [getElem?_eq_getD inside]
    exact congrArg some (w.getD_apply n.data i)
  · obtain ⟨node, -⟩ := wrote.node same found
    refine ⟨_, node, Writing.length_foldl_onto ws n, fun i inside => ?_⟩
    rw [getElem?_eq_getD inside, Writing.getD_foldl_onto]
  · exact (wrote.node same found).2
  · rintro front v w back rfl apart
    obtain ⟨mid, before, next, first, next', second, after⟩ := wroteAll_append.mp wrote
    have at_p : v.path.same p ∧ w.path.same p := ⟨same v (by simp), same w (by simp)⟩
    have same' : v.path.same w.path :=
      Path.same_iff.mpr ((Path.same_iff.mp at_p.1).trans (Path.same_iff.mp at_p.2).symm)
    obtain ⟨other, first', second'⟩ := first.swap second (before.ordered ordered) apart same'
    exact wroteAll_append.mpr ⟨mid, before, other, first', next', second', after⟩
  · rintro front w rfl
    obtain ⟨mid, before, next, final, rfl⟩ := wroteAll_append.mp wrote
    exact final.again (before.ordered ordered)

/-- Two writes with a gap between them, to two spellings of a path. -/
theorem writes_compose_gap :
    let p := Path.ofString "/data/out"
    let n := Node.ofStat (Mode.regular ||| 0o644) 0 0
    let front : Writing := ⟨{}, p, 0, [1, 2, 3]⟩
    let back : Writing := ⟨{}, .ofString "//data/./out", 5, [9]⟩
    stocked.nodes.Ordered ∧ stocked.find? p = some n ∧ ∃ last, stocked.WroteAll [front, back] last ∧
      stocked.WroteAll [back, front] last ∧ last.Wrote back last ∧
      (last.find? p).map (·.data) = some [1, 2, 3, 0, 0, 9] := by
  intro p n front back
  have ordered : stocked.nodes.Ordered := stocked_planted.ordered
  have found : stocked.find? p = some n := by decide +kernel
  let next := (stocked.perform front.who front.request).2
  let last := (next.perform back.who back.request).2
  have first : stocked.Wrote front next := Prod.ext (by decide +kernel) rfl
  have second : next.Wrote back last := Prod.ext (by decide +kernel) rfl
  have wrote : stocked.WroteAll [front, back] last := ⟨next, first, last, second, rfl⟩
  have same : ∀ w ∈ [front, back], w.path.same p := by
    intro w mem
    simp only [List.mem_cons, List.not_mem_nil, or_false] at mem
    rcases mem with rfl | rfl <;> decide +kernel
  have apart : front.Apart back := by
    intro i ⟨low, high⟩
    have low := (Writing.covers_iff.mp low).2
    have high := (Writing.covers_iff.mp high).1
    have stop : front.stop = 3 := rfl
    have offset : back.offset.toNat = 5 := rfl
    omega
  obtain ⟨-, many⟩ := writes_compose ordered found
  obtain ⟨-, -, swap, again⟩ := many _ last same wrote
  exact ⟨ordered, found, last, wrote, swap [] front back [] rfl apart, again [front] back rfl,
    by decide +kernel⟩

end Tree

end Impersonation
