import BenchLedger.Proofs.Disk.Operation
import BenchLedger.Proofs.Text.Lines

/-!
# Paths within a directory

All names joined to one directory lead to places beside each other (`locate_join`), and if the
directory is spelled with a proper last name, these are the places right below it (`locate_within`).
A neighbour of such a path is the other name joined to the same directory (`withName_join`).
-/

namespace BenchLedger.Disk

open Text

namespace Path

/-- The names that a directory is reached by: those of its path, but for idle ones at the end. The
empty path has none. -/
inductive Spells (q : Path) (absolute : Bool) (names : List Name) : Prop
  | empty (hempty : q.isEmpty = true) (habsolute : absolute = false) (hnames : names = [])
  | body (idle : List Name) (hempty : q.isEmpty = false) (habsolute : q.isAbsolute = absolute)
      (hbody : q.body = names ++ idle) (hidle : Idle idle)

theorem isAbsolute_cons_snoc (first : Name) (rest : List Name) (name : Name) :
    isAbsolute ⟨first :: rest ++ [name]⟩ = first.isEmpty := by
  cases first <;> cases rest <;> rfl

theorem join_of_isEmpty {directory : Path} (h : directory.isEmpty = true) (name : Name) :
    directory.join ⟨[name]⟩ = ⟨[name]⟩ := by
  simp [join, h]

theorem exists_segments_join {directory : Path} (h : directory.isEmpty = false) :
    ∃ first rest idle, Idle idle ∧ directory.segments = first :: rest ++ idle ∧
      directory.isAbsolute = first.isEmpty ∧
      ∀ name, directory.join ⟨[name]⟩ = ⟨first :: rest ++ [name]⟩ := by
  obtain ⟨segments⟩ := directory
  match segments with
  | [] => cases h
  | [[]] => cases h
  | [c :: cs] =>
    exact ⟨c :: cs, [], [], idle_nil, rfl, rfl, fun name => by simp [join, isAbsolute_singleton, h]⟩
  | first :: second :: rest =>
    have habsolute : isAbsolute ⟨first :: second :: rest⟩ = first.isEmpty := by cases first <;> rfl
    by_cases hslashed : (second :: rest).getLast? = some []
    · obtain ⟨front, hfront⟩ := List.getLast?_eq_some_iff.1 hslashed
      have hfirst : (second :: rest).dropLast = front := by rw [hfront, List.dropLast_concat]
      refine ⟨first, front, [[]], by simp [Idle], by simp [hfront], habsolute, fun name => ?_⟩
      simp [join, isAbsolute_singleton, h, List.getLast?_cons_cons, hslashed, hfirst]
    · refine ⟨first, second :: rest, [], idle_nil, by simp, habsolute, fun name => ?_⟩
      simp [join, isAbsolute_singleton, h, List.getLast?_cons_cons, hslashed]

theorem exists_front_join (directory : Path) : ∃ absolute front, directory.Spells absolute front ∧
    ∀ name, (directory.join ⟨[name]⟩).isAbsolute = absolute ∧
      (directory.join ⟨[name]⟩).body = front ++ [name] := by
  cases hempty : directory.isEmpty with
  | true =>
    refine ⟨false, [], .empty hempty rfl rfl, fun name => ?_⟩
    rw [join_of_isEmpty hempty, body, isAbsolute_singleton]
    exact ⟨rfl, rfl⟩
  | false =>
    obtain ⟨first, rest, idle, hidle, hsegments, habsolute, hjoin⟩ := exists_segments_join hempty
    refine ⟨first.isEmpty, if first.isEmpty then rest else first :: rest,
      .body idle hempty habsolute ?_ hidle, fun name => ?_⟩
    · rw [body, habsolute, hsegments]
      split_ifs <;> rfl
    · rw [hjoin, body, isAbsolute_cons_snoc]
      refine ⟨rfl, ?_⟩
      split_ifs <;> rfl

theorem toChars_snoc {front : List Name} (h : front ≠ []) (name : Name) :
    toChars ⟨front ++ [name]⟩ = toChars ⟨front⟩ ++ '/' :: name := by
  rw [toChars, intercalate_append h (List.cons_ne_nil name []), List.intercalate_singleton,
    List.append_assoc]
  rfl

theorem isEmpty_of_getLast? {p : Path} {last : Name} (h : p.segments.getLast? = some last)
    (hne : last ≠ []) : p.isEmpty = false := by
  obtain ⟨front, hfront⟩ := List.getLast?_eq_some_iff.1 h
  obtain rfl : p = ⟨front ++ [last]⟩ := congrArg Path.mk hfront
  rw [isEmpty, List.isEmpty_eq_false_iff]
  cases front with
  | nil => simpa [toChars] using hne
  | cons first rest =>
    rw [toChars_snoc (List.cons_ne_nil first rest)]
    simp

theorem dropIdle_snoc (absolute : Bool) (front : List Name) {name : Name} (hne : name ≠ [])
    (hdot : name ≠ dot) : dropIdle absolute (front ++ [name]) = front ++ [name] := by
  have hkept : ((front ++ [name]).reverse.dropWhile fun s => s = [] ∨ s = dot).reverse =
      front ++ [name] := by simp [hne, hdot]
  rw [dropIdle, hkept]
  cases front <;> rfl

theorem parent?_eq_some {p : Path} {front : List Name} {name : Name}
    (hbody : p.body = front ++ [name]) (hne : name ≠ [])
    (hdot : name ≠ dot) :
    p.parent? = some ⟨(if p.isAbsolute then [[]] else []) ++
      if dropIdle p.isAbsolute front = [] then [[]] else dropIdle p.isAbsolute front⟩ := by
  rw [parent?, hbody, dropIdle_snoc _ _ hne hdot]
  cases hsplit : front ++ [name] with
  | nil => simp at hsplit
  | cons first rest =>
    simp only [← hsplit, List.dropLast_concat]
    cases dropIdle p.isAbsolute front <;> cases p.isAbsolute <;> rfl

/-! ### Directories with a proper last name -/

/-- A name that is not empty and does not stand for the directory itself ends the path. -/
structure EndsIn (p : Path) (last : Name) : Prop where
  getLast? : p.segments.getLast? = some last
  ne_nil : last ≠ []
  ne_dot : last ≠ dot

section endsIn

variable {directory : Path} {last : Name}

theorem EndsIn.exists_segments (h : directory.EndsIn last) :
    ∃ front, directory.segments = front ++ [last] :=
  List.getLast?_eq_some_iff.1 h.getLast?

theorem EndsIn.join (h : directory.EndsIn last) (name : Name) :
    directory.join ⟨[name]⟩ = ⟨directory.segments ++ [name]⟩ := by
  have hempty := isEmpty_of_getLast? h.getLast? h.ne_nil
  have hslashed : directory.segments.getLast? ≠ some [] := by simp [h.getLast?, h.ne_nil]
  simp [Path.join, isAbsolute_singleton, hempty, hslashed]

theorem endsIn_join (directory : Path) {name : Name} (hne : name ≠ []) (hdot : name ≠ dot) :
    (directory.join ⟨[name]⟩).EndsIn name := by
  refine ⟨?_, hne, hdot⟩
  rw [← getLast?_body]
  exact getLast?_body_join directory name

theorem EndsIn.isAbsolute_join (h : directory.EndsIn last) (name : Name) :
    (directory.join ⟨[name]⟩).isAbsolute = directory.isAbsolute := by
  rw [h.join]
  obtain ⟨segments⟩ := directory
  match segments with
  | [] => exact absurd h.getLast? (by simp)
  | [only] =>
    have honly : only ≠ [] := by
      rintro rfl
      exact h.ne_nil (by simpa using h.getLast?.symm)
    cases only with
    | nil => exact absurd rfl honly
    | cons c cs => rfl
  | first :: second :: rest => cases first <;> rfl

theorem EndsIn.body_join (h : directory.EndsIn last) (name : Name) :
    (directory.join ⟨[name]⟩).body = directory.body ++ [name] := by
  obtain ⟨front, hfront⟩ := h.exists_segments
  rw [body, body, h.isAbsolute_join, h.join]
  split_ifs
  · exact List.tail_append_of_ne_nil (by simp [hfront])
  · rfl

theorem EndsIn.exists_body (h : directory.EndsIn last) :
    ∃ front, directory.body = front ++ [last] := by
  have hlast := h.getLast?
  rw [← getLast?_body] at hlast
  exact List.getLast?_eq_some_iff.1 hlast

theorem EndsIn.parent?_join (h : directory.EndsIn last) {name : Name} (hne : name ≠ [])
    (hdot : name ≠ dot) : (directory.join ⟨[name]⟩).parent? = some directory := by
  obtain ⟨front, hfront⟩ := h.exists_body
  have hkept : dropIdle directory.isAbsolute directory.body = directory.body := by
    rw [hfront, dropIdle_snoc _ _ h.ne_nil h.ne_dot]
  have hnames : directory.body ≠ [] := by simp [hfront]
  rw [parent?_eq_some (h.body_join name) hne hdot, h.isAbsolute_join, hkept, if_neg hnames]
  cases habsolute : directory.isAbsolute with
  | true => exact congrArg (some ∘ Path.mk) (segments_of_isAbsolute habsolute).1.symm
  | false => exact congrArg (some ∘ Path.mk) (segments_of_not_isAbsolute habsolute).symm

theorem EndsIn.withName_join (h : directory.EndsIn last) {name : Name} (hne : name ≠ [])
    (hdot : name ≠ dot) (other : Name) :
    (directory.join ⟨[name]⟩).withName other = directory.join ⟨[other]⟩ := by
  rw [withName, h.parent?_join hne hdot, Option.getD_some]

end endsIn

end Path

namespace Tree

variable {t : Tree} {p q : Path} {place : Location} {name : Name}

theorem admit?_of_prefix (h : q.toChars <+: p.toChars) (hempty : q.isEmpty = false)
    (hpath : admit? p = none) : admit? q = none := by
  obtain ⟨rest, hrest⟩ := h
  unfold admit? at hpath ⊢
  rw [← hrest, Utf8.encode_append, List.length_append] at hpath
  split_ifs at hpath with hnul hp hlong
  have hnul' : '\x00' ∉ q.toChars := fun hmem => hnul (List.mem_append_left _ hmem)
  have hlong' : ¬4096 ≤ (Utf8.encode q.toChars).length := by omega
  simp [hnul', hempty, hlong']

theorem admit?_of_join {directory : Path} {last : Name} (h : directory.EndsIn last)
    (hpath : admit? (directory.join ⟨[name]⟩) = none) : admit? directory = none := by
  obtain ⟨front, hfront⟩ := h.exists_segments
  have hsegments : directory.segments ≠ [] := by simp [hfront]
  refine admit?_of_prefix ?_ (Path.isEmpty_of_getLast? h.getLast? h.ne_nil) hpath
  rw [h.join, Path.toChars_snoc hsegments]
  exact List.prefix_append _ _

theorem locate_within {directory : Path} {last : Name} (hdirectory : directory.EndsIn last)
    (h : t.locate (directory.join ⟨[name]⟩) = .ok place) (hname : name.IsProper) :
    ∃ here, t.locate directory = .ok here ∧ place = here ++ [name] := by
  obtain ⟨hpath, hwalk⟩ := locate_eq_ok h
  rw [hdirectory.body_join, origin, hdirectory.isAbsolute_join] at hwalk
  obtain ⟨here, hhere, henter⟩ := walk_snoc hwalk
  refine ⟨here, ?_, eq_of_enter henter hname⟩
  unfold locate
  rw [admit?_of_join hdirectory hpath]
  exact hhere

theorem locate_join {directory : Path} {other : Name} {place' : Location}
    (h : t.locate (directory.join ⟨[name]⟩) = .ok place)
    (h' : t.locate (directory.join ⟨[other]⟩) = .ok place')
    (hname : name.IsProper) (hother : other.IsProper) :
    ∃ here, place = here ++ [name] ∧ place' = here ++ [other] := by
  obtain ⟨absolute, front, -, hfront⟩ := directory.exists_front_join
  obtain ⟨-, hwalk⟩ := locate_eq_ok h
  obtain ⟨-, hwalk'⟩ := locate_eq_ok h'
  rw [origin, (hfront name).1, (hfront name).2] at hwalk
  rw [origin, (hfront other).1, (hfront other).2] at hwalk'
  obtain ⟨here, hhere, henter⟩ := walk_snoc hwalk
  obtain ⟨here', hhere', henter'⟩ := walk_snoc hwalk'
  have hsame : here = here' := by
    rw [hhere] at hhere'
    exact Except.ok.inj hhere'
  subst hsame
  exact ⟨here, eq_of_enter henter hname, eq_of_enter henter' hother⟩

end Tree

end BenchLedger.Disk
