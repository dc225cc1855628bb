import BenchLedger.Metrics
import Mathlib.Data.List.Induction
import Mathlib.Data.List.Nodup

/-!
# Profiler blocks are what sentinel lines enclose

The pass over the lines (`Scan`) is compared with a statement about pairs of positions. Two lines
enclose a block (`Encloses`) if the first holds the start sentinel, the second the end sentinel and
not the start sentinel, and no line between them holds a sentinel. `ofLines_enclosures` says that
the blocks of a capture are those of the enclosing pairs in the order of their ends, and that every
line may carry a sample.

The proof follows the pass. `OpensAt` is the position that the pass does not keep: the last sentinel
so far, if it is a start sentinel. `Scan.Invariant` ties the flag and the lines held to it.
-/

namespace BenchLedger

open Profiler

/-! ## Enclosing pairs -/

def isSentinel (line : String) : Bool := opensBlock line || closesBlock line

/-- Lines `s` and `e` enclose a block. -/
def Encloses (lines : List String) (s e : Nat) : Prop :=
  s < e ∧ lines[s]?.any opensBlock = true ∧
    lines[e]?.any (fun line => closesBlock line && !opensBlock line) = true ∧
    ∀ k < e, s < k → lines[k]?.any isSentinel = false

instance (lines : List String) (s e : Nat) : Decidable (Encloses lines s e) :=
  inferInstanceAs (Decidable (_ ∧ _))

/-- All pairs of lines that enclose a block, in the order of their ends. -/
def enclosures (lines : List String) : List (Nat × Nat) :=
  (List.range lines.length).flatMap fun e =>
    ((List.range e).filter fun s => Encloses lines s e).map fun s => (s, e)

/-- The lines strictly between two positions. -/
def between (lines : List String) (s e : Nat) : List String := (lines.take e).drop (s + 1)

theorem Encloses.lt_length {lines : List String} {s e : Nat} (h : Encloses lines s e) :
    e < lines.length := by
  by_contra hge
  have hcloses := h.2.2.1
  rw [List.getElem?_eq_none (by omega)] at hcloses
  cases hcloses

theorem mem_enclosures {lines : List String} {s e : Nat} :
    (s, e) ∈ enclosures lines ↔ Encloses lines s e := by
  simp only [enclosures, List.mem_flatMap, List.mem_range, List.mem_map, List.mem_filter,
    decide_eq_true_eq, Prod.mk.injEq]
  constructor
  · rintro ⟨_, _, _, ⟨_, h⟩, rfl, rfl⟩
    exact h
  · intro h
    exact ⟨e, h.lt_length, s, ⟨h.1, h⟩, rfl, rfl⟩

theorem lt_length_of_mem_enclosures {lines : List String} {p : Nat × Nat}
    (hp : p ∈ enclosures lines) : p.2 < lines.length :=
  (mem_enclosures.1 hp).lt_length

/-- The block that the lines of a pair describe. -/
def enclosedBlocks (lines : List String) : List Block :=
  (enclosures lines).filterMap fun p => Block.ofLines? (between lines p.1 p.2)

/-! ## One line more -/

/-- Line `s` holds the start sentinel and no later line holds a sentinel. -/
def OpensAt (lines : List String) (s : Nat) : Prop :=
  lines[s]?.any opensBlock = true ∧ ∀ k, s < k → lines[k]?.any isSentinel = false

section snoc

variable {lines : List String} {line : String} {s e : Nat}

theorem OpensAt.lt_length (h : OpensAt lines s) : s < lines.length := by
  by_contra hge
  have hnone : lines[s]? = none := List.getElem?_eq_none (by omega)
  simpa [hnone] using h.1

theorem isSentinel_of_opens (h : lines[s]?.any opensBlock = true) :
    lines[s]?.any isSentinel = true := by
  cases hs : lines[s]? with
  | none => simp [hs] at h
  | some first => simpa [isSentinel, hs] using Or.inl (by simpa [hs] using h)

theorem OpensAt.unique {s' : Nat} (h : OpensAt lines s) (h' : OpensAt lines s') : s = s' := by
  rcases Nat.lt_trichotomy s s' with hlt | heq | hlt
  · exact absurd (isSentinel_of_opens h'.1) (by simp [h.2 s' hlt])
  · exact heq
  · exact absurd (isSentinel_of_opens h.1) (by simp [h'.2 s hlt])

theorem getElem?_snoc_of_lt (hs : s < lines.length) : (lines ++ [line])[s]? = lines[s]? :=
  List.getElem?_append_left hs

theorem getElem?_snoc_length : (lines ++ [line])[lines.length]? = some line := by simp

theorem opensAt_length : OpensAt (lines ++ [line]) lines.length ↔ opensBlock line = true := by
  rw [OpensAt, getElem?_snoc_length]
  refine ⟨fun h => by simpa using h.1, fun h => ⟨by simpa using h, fun k hk => ?_⟩⟩
  rw [List.getElem?_eq_none (by simp; omega)]
  rfl

theorem opensAt_snoc (hline : opensBlock line = false) :
    OpensAt (lines ++ [line]) s ↔ OpensAt lines s ∧ closesBlock line = false := by
  have hsentinel : isSentinel line = closesBlock line := by simp [isSentinel, hline]
  constructor
  · intro h
    have hlt : s < lines.length := by
      have hle := h.lt_length
      simp only [List.length_append, List.length_singleton] at hle
      refine Nat.lt_of_le_of_ne (by omega) fun heq => ?_
      subst heq
      simp [opensAt_length, hline] at h
    refine ⟨⟨by simpa [getElem?_snoc_of_lt hlt] using h.1, fun k hk => ?_⟩, ?_⟩
    · rcases Nat.lt_or_ge k lines.length with hin | hout
      · have hsame : (lines ++ [line])[k]? = lines[k]? := getElem?_snoc_of_lt hin
        rw [← hsame]
        exact h.2 k hk
      · rw [List.getElem?_eq_none hout]
        rfl
    · simpa [hsentinel] using h.2 lines.length hlt
  · rintro ⟨h, hcloses⟩
    refine ⟨by simpa [getElem?_snoc_of_lt h.lt_length] using h.1, fun k hk => ?_⟩
    rcases Nat.lt_trichotomy k lines.length with hlt | rfl | hgt
    · rw [getElem?_snoc_of_lt hlt]
      exact h.2 k hk
    · simpa [hsentinel] using hcloses
    · rw [List.getElem?_eq_none (by simp; omega)]
      rfl

theorem encloses_iff :
    Encloses lines s e ↔ OpensAt (lines.take e) s ∧
      lines[e]?.any (fun line => closesBlock line && !opensBlock line) = true := by
  constructor
  · rintro ⟨hlt, hopens, hcloses, hquiet⟩
    refine ⟨⟨by rwa [List.getElem?_take_of_lt hlt], fun k hk => ?_⟩, hcloses⟩
    rcases Nat.lt_or_ge k e with hke | hek
    · rw [List.getElem?_take_of_lt hke]
      exact hquiet k hke hk
    · rw [List.getElem?_eq_none (by simp; omega)]
      rfl
  · rintro ⟨hopen, hcloses⟩
    have hlt : s < e := by
      have := hopen.lt_length
      simp only [List.length_take] at this
      omega
    refine ⟨hlt, by simpa [List.getElem?_take_of_lt hlt] using hopen.1, hcloses, fun k hke hk => ?_⟩
    rw [← List.getElem?_take_of_lt hke]
    exact hopen.2 k hk

theorem encloses_snoc_of_lt (he : e < lines.length) :
    Encloses (lines ++ [line]) s e ↔ Encloses lines s e := by
  rw [encloses_iff, encloses_iff, List.take_append_of_le_length (by omega),
    getElem?_snoc_of_lt he]

theorem encloses_snoc_length :
    Encloses (lines ++ [line]) s lines.length ↔
      OpensAt lines s ∧ (closesBlock line && !opensBlock line) = true := by
  rw [encloses_iff, List.take_left', getElem?_snoc_length]
  · rfl
  · rfl

theorem enclosures_snoc :
    enclosures (lines ++ [line]) = enclosures lines ++
      ((List.range lines.length).filter fun s => Encloses (lines ++ [line]) s lines.length).map
        fun s => (s, lines.length) := by
  rw [enclosures, List.length_append, List.length_singleton, List.range_succ, List.flatMap_append,
    List.flatMap_singleton, enclosures]
  congr 1
  refine List.flatMap_congr fun e he => ?_
  simp only [encloses_snoc_of_lt (List.mem_range.1 he)]

theorem enclosures_snoc_of_opensAt (h : OpensAt lines s)
    (hline : (closesBlock line && !opensBlock line) = true) :
    enclosures (lines ++ [line]) = enclosures lines ++ [(s, lines.length)] := by
  have hfilter : ((List.range lines.length).filter fun x =>
      Encloses (lines ++ [line]) x lines.length) = [s] := by
    have hiff : ∀ x, Encloses (lines ++ [line]) x lines.length ↔ x = s := fun x =>
      ⟨fun hx => (encloses_snoc_length.1 hx).1.unique h,
        fun hx => hx ▸ encloses_snoc_length.2 ⟨h, hline⟩⟩
    simp only [hiff]
    rw [List.filter_eq, List.count_eq_one_of_mem List.nodup_range (List.mem_range.2 h.lt_length)]
    rfl
  rw [enclosures_snoc, hfilter]
  rfl

theorem enclosures_snoc_of_not (h : ∀ s, OpensAt lines s →
    (closesBlock line && !opensBlock line) = false) :
    enclosures (lines ++ [line]) = enclosures lines ++ [] := by
  rw [enclosures_snoc, List.filter_eq_nil_iff.2, List.map_nil]
  intro s _
  rw [decide_eq_true_eq, encloses_snoc_length]
  rintro ⟨hopen, hline⟩
  rw [h s hopen] at hline
  cases hline

theorem between_snoc {p : Nat × Nat} (hp : p ∈ enclosures lines) :
    between (lines ++ [line]) p.1 p.2 = between lines p.1 p.2 := by
  have hlt := lt_length_of_mem_enclosures hp
  rw [between, between, List.take_append_of_le_length (by omega)]

theorem between_snoc_length :
    between (lines ++ [line]) s lines.length = lines.drop (s + 1) := by
  rw [between, List.take_left' rfl]

theorem enclosedBlocks_snoc {new : List (Nat × Nat)}
    (h : enclosures (lines ++ [line]) = enclosures lines ++ new) :
    enclosedBlocks (lines ++ [line]) = enclosedBlocks lines ++
      new.filterMap fun p => Block.ofLines? (between (lines ++ [line]) p.1 p.2) := by
  rw [enclosedBlocks, enclosedBlocks, h, List.filterMap_append]
  congr 1
  exact List.filterMap_congr fun p hp => by rw [between_snoc hp]

end snoc

/-! ## The pass -/

namespace Scan

variable {lines : List String} {s : Scan}

/-- What the pass knows after some lines: whether a block is open, its lines, and the blocks. -/
structure Invariant (lines : List String) (s : Scan) : Prop where
  body : s.isOpen = true → ∃ start, OpensAt lines start ∧ s.body.reverse = lines.drop (start + 1)
  closed : s.isOpen = false → ∀ start, ¬OpensAt lines start
  blocks : s.blocks.reverse = enclosedBlocks lines

theorem feed_samples (s : Scan) (line : String) :
    (s.feed line).samples = (Throughput.sample? line).toList ++ s.samples := by
  simp only [feed, feedBlock]
  split_ifs <;> rfl

theorem Invariant.snoc (h : Invariant lines s) (line : String) :
    Invariant (lines ++ [line]) (s.feed line) := by
  simp only [feed, feedBlock]
  cases hopens : opensBlock line with
  | true =>
    -- The line opens a block at its own position, and closes none even if it holds both sentinels.
    have hnew : enclosures (lines ++ [line]) = enclosures lines ++ [] :=
      enclosures_snoc_of_not fun _ _ => by simp [hopens]
    refine ⟨fun _ => ⟨lines.length, opensAt_length.2 hopens, by simp⟩, by simp, ?_⟩
    rw [enclosedBlocks_snoc hnew, List.filterMap_nil, List.append_nil]
    exact h.blocks
  | false =>
    cases hopen : s.isOpen with
    | false =>
      -- No block is open, so the line changes nothing.
      have hnew : enclosures (lines ++ [line]) = enclosures lines ++ [] :=
        enclosures_snoc_of_not fun start hstart => absurd hstart (h.closed hopen start)
      refine ⟨by simp, fun _ start hstart => ?_, ?_⟩
      · exact h.closed hopen start ((opensAt_snoc hopens).1 hstart).1
      · rw [enclosedBlocks_snoc hnew, List.filterMap_nil, List.append_nil]
        exact h.blocks
    | true =>
      obtain ⟨start, hstart, hbody⟩ := h.body hopen
      cases hcloses : closesBlock line with
      | true =>
        -- The pair of the open block and this line is the only new one.
        have hnew : enclosures (lines ++ [line]) = enclosures lines ++ [(start, lines.length)] :=
          enclosures_snoc_of_opensAt hstart (by simp [hcloses, hopens])
        refine ⟨by simp, fun _ other hother => ?_, ?_⟩
        · simpa [hcloses] using ((opensAt_snoc hopens).1 hother).2
        · rw [enclosedBlocks_snoc hnew, List.filterMap_cons, List.filterMap_nil,
            between_snoc_length, ← hbody, ← h.blocks]
          simp only [Bool.and_self, if_true, Bool.false_eq_true, if_false, List.reverse_append]
          cases Block.ofLines? s.body.reverse <;> rfl
      | false =>
        have hnew : enclosures (lines ++ [line]) = enclosures lines ++ [] :=
          enclosures_snoc_of_not fun _ _ => by simp [hcloses]
        refine ⟨fun _ => ⟨start, (opensAt_snoc hopens).2 ⟨hstart, hcloses⟩, ?_⟩, by simp, ?_⟩
        · simp [hbody, List.drop_append_of_le_length hstart.lt_length]
        · rw [enclosedBlocks_snoc hnew, List.filterMap_nil, List.append_nil]
          exact h.blocks

theorem invariant_ofLines (lines : List String) : Invariant lines (ofLines lines) := by
  induction lines using List.reverseRecOn with
  | nil => exact ⟨by simp [ofLines], by simp [OpensAt], rfl⟩
  | append_singleton lines line ih =>
    rw [ofLines, List.foldl_concat]
    exact ih.snoc line

theorem samples_ofLines (lines : List String) :
    (ofLines lines).samples.reverse = lines.filterMap Throughput.sample? := by
  induction lines using List.reverseRecOn with
  | nil => rfl
  | append_singleton lines line ih =>
    rw [ofLines, List.foldl_concat, feed_samples, List.reverse_append, List.filterMap_append,
      ← ih, ofLines, List.filterMap_cons]
    cases Throughput.sample? line <;> rfl

end Scan

theorem samples_eq (lines : List String) :
    (Metrics.ofLines lines).samples = lines.filterMap Throughput.sample? :=
  Scan.samples_ofLines lines

/-! ## The blocks of a capture -/

theorem enclosures_pairwise (lines : List String) :
    (enclosures lines).Pairwise fun p q => p.2 < q.2 := by
  induction lines using List.reverseRecOn with
  | nil => exact List.Pairwise.nil
  | append_singleton lines line ih =>
    by_cases h : ∃ s, OpensAt lines s ∧ (closesBlock line && !opensBlock line) = true
    · obtain ⟨s, hopen, hline⟩ := h
      rw [enclosures_snoc_of_opensAt hopen hline, List.pairwise_append]
      refine ⟨ih, List.pairwise_singleton _ _, fun p hp q hq => ?_⟩
      rw [List.mem_singleton.1 hq]
      exact lt_length_of_mem_enclosures hp
    · rw [enclosures_snoc_of_not fun s hopen => by
        by_contra hline
        exact h ⟨s, hopen, by simpa using hline⟩]
      simpa using ih

/-- **Block extraction is what the sentinels enclose.** The samples are those of all lines. The
blocks are those of the lines strictly between two lines that enclose a block, in the order of the
ends, of which no two are equal. -/
theorem ofLines_enclosures (lines : List String) :
    (Metrics.ofLines lines).samples = lines.filterMap Throughput.sample? ∧
    (Metrics.ofLines lines).blocks =
      (enclosures lines).filterMap (fun p => Block.ofLines? (between lines p.1 p.2)) ∧
    (∀ s e, (s, e) ∈ enclosures lines ↔ Encloses lines s e) ∧
    (enclosures lines).Pairwise fun p q => p.2 < q.2 :=
  ⟨Scan.samples_ofLines lines, (Scan.invariant_ofLines lines).blocks, fun _ _ => mem_enclosures,
    enclosures_pairwise lines⟩

end BenchLedger
