import EffectLang.Proofs.Text.Span
import EffectLang.Text.Cursor

/-!
# The two positions of a cursor

A cursor counts bytes, to cut the text, and characters, for the spans.  Were the two ever to drift
apart, a cut could fall inside a character and the rest of the text would be gone
(`dropBytes_eq_nil_of_not_isValid`).  `Cursor.Agrees` says what holds as long as both counts belong
to one place, behind the first `k` characters: the bytes end where a character ends, and nothing is
lost behind them.

**Places.**  `Cursor.behind source given` is the cursor behind the characters `given` of a text.
One step leads from there to the next place (`Cursor.bump_behind_cons`), or nowhere at the end of
the text (`Cursor.bump_behind_nil`).

**Histories.**  A `Session` is a cursor with snapshots of earlier places, to which it may go back.
All of its places stay behind some characters of the text (`Session.InStep.run`), whatever the
order of the moves.  The main statement is `agrees_of_moves`.  The bytes always tell the place.  The
offset tells it in texts of fewer than `2 ^ 32` characters, and not behind more of them
(`agrees_of_moves_overlong`).
-/

namespace EffectLang.Text

/-! ## Cutting a text at a byte -/

/-- The bytes of two texts add up. -/
lemma utf8ByteSize_ofList_append (cs ds : List Char) : (String.ofList (cs ++ ds)).utf8ByteSize =
    (String.ofList cs).utf8ByteSize + (String.ofList ds).utf8ByteSize := by
  rw [String.ofList_append, String.utf8ByteSize_append]

lemma utf8ByteSize_ofList_cons (c : Char) (cs : List Char) :
    (String.ofList (c :: cs)).utf8ByteSize = c.utf8Size + (String.ofList cs).utf8ByteSize := by
  rw [← List.singleton_append, utf8ByteSize_ofList_append, ← String.singleton_eq_ofList,
    String.utf8ByteSize_singleton]

/-- No characters are what takes no bytes. -/
lemma utf8ByteSize_ofList_eq_zero {cs : List Char} :
    (String.ofList cs).utf8ByteSize = 0 ↔ cs = [] := by
  rw [String.utf8ByteSize_eq_zero_iff, String.ofList_eq_empty_iff]

/-- The bytes of some characters are these characters, whatever their widths. -/
lemma dropBytes_append (cs ds : List Char) :
    dropBytes (String.ofList cs).utf8ByteSize (cs ++ ds) = ds := by
  induction cs with
  | nil => rw [String.ofList_nil, String.utf8ByteSize_empty, List.nil_append, dropBytes]
  | cons c cs ih =>
      rw [utf8ByteSize_ofList_cons, List.cons_append, dropBytes_cons (Nat.le_add_right _ _),
        Nat.add_sub_cancel_left, ih]

/-- A byte that no character ends at cuts the text to nothing. -/
theorem dropBytes_eq_nil_of_not_isValid {n : Nat} {source : String}
    (h : ¬ (String.Pos.Raw.mk n).IsValid source) : dropBytes n source.toList = [] := by
  rw [String.Pos.Raw.isValid_iff_exists_take_toList] at h
  generalize source.toList = cs at h
  fun_induction dropBytes n cs with
  | case1 cs => exact absurd ⟨0, by simp⟩ h
  | case2 n => rfl
  | case3 n c cs hle ih =>
      refine ih ?_
      rintro ⟨i, hi⟩
      refine h ⟨i + 1, ?_⟩
      simp only [List.take_succ_cons, utf8ByteSize_ofList_cons, ← hi]
      omega
  | case4 n c cs hle => rfl

/-- Nothing is left when as many bytes are dropped as there are. -/
lemma dropBytes_of_utf8ByteSize_le {n : Nat} {cs : List Char}
    (h : (String.ofList cs).utf8ByteSize ≤ n) : dropBytes n cs = [] := by
  induction cs generalizing n with
  | nil => cases n <;> rfl
  | cons c cs ih =>
      rw [utf8ByteSize_ofList_cons] at h
      rw [dropBytes_cons (by omega)]
      exact ih (by omega)

/-! ## Places -/

namespace Cursor

/-- Nothing lies ahead of the end of a text. -/
lemma ahead_of_atEnd {c : Cursor} (h : c.atEnd = true) : c.ahead = [] := by
  have hle : c.source.utf8ByteSize ≤ c.bytes := of_decide_eq_true h
  exact dropBytes_of_utf8ByteSize_le (by rwa [String.ofList_toList])

/-- The cursor stands behind the first `k` characters of the text: its positions belong together,
and what it shows is the text behind them. -/
structure Agrees (source : String) (k : Nat) (c : Cursor) : Prop where
  source_eq : c.source = source
  le_length : k ≤ source.length
  offset_eq : c.offset = .after k
  bytes_eq : c.bytes = (String.ofList (source.toList.take k)).utf8ByteSize
  isValid : (String.Pos.Raw.mk c.bytes).IsValid source
  /-- The text is cut at the byte position, and not given up. -/
  toByteArray_rest : c.rest.toByteArray = source.toByteArray.extract c.bytes source.utf8ByteSize
  rest_eq : c.rest = String.ofList (source.toList.drop k)
  current?_eq : c.current? = c.rest.toList.head?
  atEnd_iff : c.atEnd = true ↔ k = source.length
  bump_of_atEnd : c.atEnd = true → c.bump = (none, c)

/-- The cursor behind some characters at the beginning of a text. -/
def behind (source : String) (given : List Char) : Cursor :=
  ⟨source, (String.ofList given).utf8ByteSize, .after given.length⟩

variable {source : String} {given rest : List Char}

@[simp] lemma source_behind : (behind source given).source = source := rfl

@[simp] lemma bytes_behind :
    (behind source given).bytes = (String.ofList given).utf8ByteSize := rfl

@[simp] lemma offset_behind : (behind source given).offset = .after given.length := rfl

/-- Behind no characters a text begins. -/
lemma behind_nil (source : String) : behind source [] = ofString source := by
  rw [behind, String.ofList_nil, String.utf8ByteSize_empty, List.length_nil, Offset.after_zero]
  rfl

/-- Behind what was given comes the rest. -/
lemma ahead_behind (h : source.toList = given ++ rest) : (behind source given).ahead = rest := by
  rw [ahead, bytes_behind, source_behind, h, dropBytes_append]

lemma bump_behind_nil (h : source.toList = given) :
    (behind source given).bump = (none, behind source given) := by
  have hahead : (behind source given).ahead = [] := ahead_behind (by rw [h, List.append_nil])
  rw [bump, current?, hahead]
  rfl

/-- A bump gives the next character and passes it. -/
lemma bump_behind_cons {c : Char} (h : source.toList = given ++ c :: rest) :
    (behind source given).bump = (some c, behind source (given ++ [c])) := by
  have hnext : (Offset.after given.length) + 1 = .after (given ++ [c]).length := by
    rw [← Offset.skip_one, Offset.skip_after, List.length_append, List.length_singleton]
  rw [bump_of_ahead (ahead_behind h), offset_behind, hnext]
  simp only [behind, utf8ByteSize_ofList_append, utf8ByteSize_ofList_cons, String.ofList_nil,
    String.utf8ByteSize_empty, Nat.add_zero]

/-- The end of the text is where the bytes are used up and where the characters are. -/
lemma atEnd_behind_iff (h : source.toList = given ++ rest) :
    (behind source given).atEnd = true ↔ rest = [] := by
  have hsize : source.utf8ByteSize =
      (String.ofList given).utf8ByteSize + (String.ofList rest).utf8ByteSize := by
    rw [← utf8ByteSize_ofList_append, ← h, String.ofList_toList]
  rw [atEnd, decide_eq_true_iff, source_behind, bytes_behind, hsize,
    ← utf8ByteSize_ofList_eq_zero]
  omega

/-- A cursor agrees with the text that it was moved over. -/
lemma agrees_behind (h : source.toList = given ++ rest) :
    (behind source given).Agrees source given.length := by
  have hsource : source = String.ofList given ++ String.ofList rest := by
    rw [← String.ofList_append, ← h, String.ofList_toList]
  have hlength : source.length = given.length + rest.length := by
    rw [← String.length_toList, h, List.length_append]
  have hrest : (behind source given).rest = String.ofList rest := by
    rw [Cursor.rest, ahead_behind h]
  have htake : source.toList.take given.length = given := by rw [h, List.take_left]
  refine ⟨rfl, ?_, rfl, ?_, ?_, ?_, ?_, ?_, ?_, ?_⟩
  · rw [hlength]
    exact Nat.le_add_right _ _
  · rw [bytes_behind, htake]
  · exact String.Pos.Raw.isValid_iff_exists_append.2 ⟨_, _, hsource, rfl⟩
  · conv => rhs; rw [hsource]
    rw [hrest, bytes_behind, String.toByteArray_append, ByteArray.extract_append_eq_right]
    · rw [String.size_toByteArray]
    · rw [String.utf8ByteSize_append, String.size_toByteArray, String.size_toByteArray]
  · rw [hrest, h, List.drop_left]
  · rw [Cursor.current?, ahead_behind h, hrest, String.toList_ofList]
  · rw [atEnd_behind_iff h, hlength, ← List.length_eq_zero_iff]
    omega
  · intro hend
    rw [atEnd_behind_iff h] at hend
    exact bump_behind_nil (by rw [h, hend, List.append_nil])

/-- In a text of fewer than `2 ^ 32` characters the offset tells the place. -/
lemma Agrees.of_offset {c : Cursor} {k : Nat} (h : c.Agrees source k)
    (hsize : source.length < 2 ^ 32) : c.Agrees source c.offset.toNat := by
  have hk : c.offset.toNat = k := by
    rw [h.offset_eq, Offset.toNat_after (Nat.lt_of_le_of_lt h.le_length hsize)]
  rwa [hk]

end Cursor

/-- A cursor with the characters that it has given on the way to where it is. -/
structure Place where
  cursor : Cursor
  given : List Char

namespace Place

/-- Passes one character, if there is one, and remembers it. -/
def bump (p : Place) : Place := ⟨p.cursor.bump.2, p.given ++ p.cursor.bump.1.toList⟩

/-- The place is behind some characters of the text. -/
def InStep (source : String) (p : Place) : Prop :=
  ∃ given rest, source.toList = given ++ rest ∧ p = ⟨.behind source given, given⟩

variable {source : String} {given rest : List Char} {p : Place}

lemma inStep_ofString (source : String) : InStep source ⟨.ofString source, []⟩ :=
  ⟨[], source.toList, rfl, by rw [Cursor.behind_nil]⟩

lemma bump_behind_nil (h : source.toList = given) :
    (Place.mk (.behind source given) given).bump = ⟨.behind source given, given⟩ := by
  rw [bump, Cursor.bump_behind_nil h]
  simp

lemma bump_behind_cons {c : Char} (h : source.toList = given ++ c :: rest) :
    (Place.mk (.behind source given) given).bump =
      ⟨.behind source (given ++ [c]), given ++ [c]⟩ := by
  rw [bump, Cursor.bump_behind_cons h]
  rfl

/-- A bump keeps a place in step. -/
lemma InStep.bump (h : p.InStep source) : p.bump.InStep source := by
  obtain ⟨given, rest, htext, rfl⟩ := h
  cases rest with
  | nil => exact ⟨given, [], htext, bump_behind_nil (by rw [htext, List.append_nil])⟩
  | cons c rest => exact ⟨given ++ [c], rest, by simp [htext], bump_behind_cons htext⟩

lemma InStep.agrees (h : p.InStep source) : p.cursor.Agrees source p.given.length := by
  obtain ⟨given, rest, htext, rfl⟩ := h
  exact Cursor.agrees_behind htext

/-- What a cursor has given and what it still shows make up the text. -/
lemma InStep.given_append_rest (h : p.InStep source) :
    p.given ++ p.cursor.rest.toList = source.toList := by
  obtain ⟨given, rest, htext, rfl⟩ := h
  rw [Cursor.rest, Cursor.ahead_behind htext, String.toList_ofList, htext]

lemma InStep.bytes_eq (h : p.InStep source) :
    p.cursor.bytes = (String.ofList p.given).utf8ByteSize := by
  obtain ⟨given, rest, htext, rfl⟩ := h
  rfl

variable {k : Place} {since : List Char}

lemma InStep.since_append_rest (hk : k.InStep source) (hp : p.InStep source)
    (h : p.given = k.given ++ since) : since ++ p.cursor.rest.toList = k.cursor.rest.toList := by
  have htext : k.given ++ (since ++ p.cursor.rest.toList) = k.given ++ k.cursor.rest.toList := by
    rw [← List.append_assoc, ← h, hp.given_append_rest, hk.given_append_rest]
  exact List.append_cancel_left htext

/-- Of two places of a text the one with fewer bytes before it has given less. -/
lemma InStep.exists_since (hk : k.InStep source) (hp : p.InStep source)
    (h : k.cursor.bytes ≤ p.cursor.bytes) : ∃ since, p.given = k.given ++ since := by
  have hk' : k.given <+: source.toList := ⟨_, hk.given_append_rest⟩
  have hp' : p.given <+: source.toList := ⟨_, hp.given_append_rest⟩
  rw [hk.bytes_eq, hp.bytes_eq] at h
  rcases List.prefix_or_prefix_of_prefix hk' hp' with ⟨since, hsince⟩ | ⟨more, hmore⟩
  · exact ⟨since, hsince.symm⟩
  · -- What lies behind the later place takes no bytes.
    rw [← hmore, utf8ByteSize_ofList_append] at h
    have hnil : more = [] := utf8ByteSize_ofList_eq_zero.1 (by omega)
    exact ⟨[], by rw [← hmore, hnil, List.append_nil, List.append_nil]⟩

end Place

/-! ## Histories -/

/-- One thing that is done with a cursor. -/
inductive Move where
  | bump
  | snapshot
  /-- Goes back to the `n`-th snapshot; without so many of them nothing happens. -/
  | restore (n : Nat)

/-- A cursor in use, and its snapshots in the order in which they were taken. -/
structure Session where
  here : Place
  saved : List Place

namespace Session

/-- A cursor at the beginning of a text, without snapshots. -/
def start (source : String) : Session := ⟨⟨.ofString source, []⟩, []⟩

/-- What a bump gives is kept, unless the cursor goes back behind it. -/
def move (s : Session) : Move → Session
  | .bump => { s with here := s.here.bump }
  | .snapshot => { s with saved := s.saved ++ [s.here] }
  | .restore n => { s with here := s.saved[n]?.getD s.here }

/-- Makes one move after another. -/
def run (s : Session) (moves : List Move) : Session := moves.foldl move s

/-- What a move returns to the one who makes it. -/
def answer (s : Session) : Move → List Char
  | .bump => s.here.cursor.bump.1.toList
  | .snapshot => []
  | .restore _ => []

/-- What a series of moves returns. -/
def returned : Session → List Move → List Char
  | _, [] => []
  | s, m :: moves => s.answer m ++ (s.move m).returned moves

/-- The cursor and all its snapshots are places of the text. -/
def InStep (source : String) (s : Session) : Prop := ∀ p ∈ s.here :: s.saved, p.InStep source

variable {source : String} {s : Session}

lemma inStep_start (source : String) : (start source).InStep source := by
  intro p hp
  obtain rfl := List.mem_singleton.1 hp
  exact Place.inStep_ofString source

/-- Every move keeps the marks in step. -/
lemma InStep.move (h : s.InStep source) (m : Move) : (s.move m).InStep source := by
  obtain ⟨hhere, hsaved⟩ := List.forall_mem_cons.1 h
  cases m with
  | bump => exact List.forall_mem_cons.2 ⟨hhere.bump, hsaved⟩
  | snapshot =>
      refine List.forall_mem_cons.2 ⟨hhere, List.forall_mem_append.2 ⟨hsaved, ?_⟩⟩
      exact List.forall_mem_singleton.2 hhere
  | restore n =>
      have hplace : (s.saved[n]?.getD s.here).InStep source := by
        cases hn : s.saved[n]? with
        | none => exact hhere
        | some k => exact hsaved k (List.mem_of_getElem? hn)
      exact List.forall_mem_cons.2 ⟨hplace, hsaved⟩

/-- The invariant of every history. -/
theorem InStep.run (h : s.InStep source) (moves : List Move) : (s.run moves).InStep source := by
  induction moves generalizing s with
  | nil => exact h
  | cons m moves ih => exact ih (h.move m)

/-- Without going back, the cursor has given what its bumps have returned. -/
lemma given_run {moves : List Move} (h : ∀ n, .restore n ∉ moves) :
    (s.run moves).here.given = s.here.given ++ s.returned moves := by
  induction moves generalizing s with
  | nil => exact (List.append_nil _).symm
  | cons m moves ih =>
      have hmove : (s.move m).here.given = s.here.given ++ s.answer m := by
        cases m with
        | bump => rfl
        | snapshot => exact (List.append_nil _).symm
        | restore n => exact absurd List.mem_cons_self (h n)
      calc (s.run (m :: moves)).here.given
          = (s.move m).here.given ++ (s.move m).returned moves :=
            ih fun n hn => h n (List.mem_cons_of_mem m hn)
        _ = s.here.given ++ s.returned (m :: moves) := by
            rw [hmove, List.append_assoc, returned]

/-- A series of bumps leads as far as the text goes. -/
lemma run_bumps (source : String) (n : Nat) :
    ((start source).run (List.replicate n .bump)).here =
      ⟨.behind source (source.toList.take n), source.toList.take n⟩ := by
  induction n with
  | zero => rw [List.take_zero, Cursor.behind_nil]; rfl
  | succ n ih =>
      rw [run, List.replicate_succ', List.foldl_append, List.foldl_cons, List.foldl_nil]
      rw [run] at ih
      simp only [Session.move, ih]
      cases hdrop : source.toList.drop n with
      | nil =>
          have hle := List.drop_eq_nil_iff.1 hdrop
          rw [List.take_of_length_le hle, List.take_of_length_le (Nat.le_succ_of_le hle)]
          exact Place.bump_behind_nil rfl
      | cons c rest =>
          have htext : source.toList = source.toList.take n ++ c :: rest := by
            rw [← hdrop, List.take_append_drop]
          have hnext : source.toList.take (n + 1) = source.toList.take n ++ [c] := by
            rw [List.take_add_one, ← List.head?_drop, hdrop]
            rfl
          rw [hnext]
          exact Place.bump_behind_cons htext

/-- **The two positions stay in step.**  After any history the cursor and all its snapshots are
each at one place of the text, which the offset tells if the text has fewer than `2 ^ 32`
characters.  What was given since a snapshot, without what was taken back, is the text from there
to the cursor.  From any place, one just gone back to as well, it is what the bumps return from then
on, until the cursor goes back again. -/
theorem agrees_of_moves {source : String} {s : Session} {moves : List Move}
    (hs : (start source).run moves = s) :
    (∀ p ∈ s.here :: s.saved, ∃ k, p.cursor.Agrees source k) ∧
      (source.length < 2 ^ 32 →
        ∀ p ∈ s.here :: s.saved, p.cursor.Agrees source p.cursor.offset.toNat) ∧
      (∀ k ∈ s.saved, k.cursor.bytes ≤ s.here.cursor.bytes →
        ∃ since, s.here.given = k.given ++ since ∧
          since ++ s.here.cursor.rest.toList = k.cursor.rest.toList) ∧
      ∀ later, (∀ n, .restore n ∉ later) →
        s.returned later ++ (s.run later).here.cursor.rest.toList =
          s.here.cursor.rest.toList := by
  have hinStep : s.InStep source := hs ▸ (inStep_start source).run moves
  obtain ⟨hhere, hsaved⟩ := List.forall_mem_cons.1 hinStep
  refine ⟨fun p hp => ⟨_, (hinStep p hp).agrees⟩,
    fun hsize p hp => (hinStep p hp).agrees.of_offset hsize, fun k hk hbytes => ?_,
    fun later hlater => ?_⟩
  · obtain ⟨since, hsince⟩ := (hsaved k hk).exists_since hhere hbytes
    exact ⟨since, hsince, (hsaved k hk).since_append_rest hhere hsince⟩
  · have hlater' := hinStep.run later _ List.mem_cons_self
    exact hhere.since_append_rest hlater' (given_run hlater)

/-- In `é→𝒫!`, with characters of one to four bytes: two steps, a snapshot, two more, back to the
snapshot, and one step again. -/
theorem agrees_of_moves_back_once :
    ∃ s, (start "é→𝒫!").run [.bump, .bump, .snapshot, .bump, .bump, .restore 0, .bump] = s ∧
      "é→𝒫!".length < 2 ^ 32 ∧ s.here.cursor.offset = 3 ∧ s.here.cursor.bytes = 9 ∧
      s.here.cursor.rest = "!" ∧ s.here.cursor.Agrees "é→𝒫!" 3 ∧
      (∃ k ∈ s.saved, k.cursor.offset = 2 ∧ k.cursor.bytes = 5 ∧ k.cursor.rest = "𝒫!" ∧
        ∃ since, s.here.given = k.given ++ since ∧
          since ++ s.here.cursor.rest.toList = k.cursor.rest.toList) ∧
      s.returned [.bump, .snapshot, .bump] = ['!'] ∧
      s.returned [.bump, .snapshot, .bump] ++
          (s.run [.bump, .snapshot, .bump]).here.cursor.rest.toList =
        s.here.cursor.rest.toList := by
  have h := agrees_of_moves (rfl : (start "é→𝒫!").run
    [.bump, .bump, .snapshot, .bump, .bump, .restore 0, .bump] = _)
  have hsize : "é→𝒫!".length < 2 ^ 32 := by decide
  refine ⟨_, rfl, hsize, rfl, rfl, rfl, h.2.1 hsize _ List.mem_cons_self, ?_, rfl,
    h.2.2.2 _ (by simp)⟩
  exact ⟨_, List.mem_cons_self, rfl, rfl, rfl, h.2.2.1 _ List.mem_cons_self (by decide)⟩

/-- Behind characters whose number 32 bits do not hold, the offset is zero again.  It does not tell
the place: the bytes are not those of no characters, the rest is not the whole text, and the end is
reached. -/
lemma not_agrees_of_after_eq_zero {source : String} (hne : source ≠ "")
    (hzero : Offset.after source.length = 0) {c : Cursor} (hc : c = .behind source source.toList) :
    c.offset = 0 ∧ c.atEnd = true ∧ c.offset.toNat ≠ source.length ∧
      c.bytes ≠ (String.ofList (source.toList.take c.offset.toNat)).utf8ByteSize ∧
      c.rest ≠ String.ofList (source.toList.drop c.offset.toNat) := by
  have htext : source.toList = source.toList ++ [] := (List.append_nil _).symm
  have hoffset : c.offset = 0 := by
    rw [hc, Cursor.offset_behind, String.length_toList, hzero]
  have hzero' : c.offset.toNat = 0 := by rw [hoffset]; rfl
  have hcs : source.toList ≠ [] := mt String.toList_eq_nil_iff.1 hne
  refine ⟨hoffset, ?_, ?_, ?_, ?_⟩
  · rw [hc]
    exact (Cursor.atEnd_behind_iff htext).2 rfl
  · rw [hzero', ← String.length_toList]
    exact Nat.ne_of_lt (List.length_pos_iff.2 hcs)
  · rw [hzero', List.take_zero, hc, Cursor.bytes_behind, String.ofList_nil,
      String.utf8ByteSize_empty, Ne, utf8ByteSize_ofList_eq_zero]
    exact hcs
  · rw [hzero', List.drop_zero, hc, Cursor.rest, Cursor.ahead_behind htext, Ne,
      String.ofList_toList]
    exact fun h => hne h.symm

/-- Behind `2 ^ 32` characters the offset does not tell the place. -/
theorem agrees_of_moves_overlong :
    ∃ source moves c, source = String.ofList (List.replicate (2 ^ 32) 'a') ∧
      moves = List.replicate (2 ^ 32) Move.bump ∧
      ((start source).run moves).here.cursor = c ∧ c.offset = 0 ∧ c.atEnd = true ∧
      c.offset.toNat ≠ source.length ∧
      c.bytes ≠ (String.ofList (source.toList.take c.offset.toNat)).utf8ByteSize ∧
      c.rest ≠ String.ofList (source.toList.drop c.offset.toNat) := by
  generalize hsource : String.ofList (List.replicate (2 ^ 32) 'a') = source
  have hlength : source.length = 2 ^ 32 := by
    rw [← hsource, String.length_ofList, List.length_replicate]
  have hne : source ≠ "" := by
    rintro rfl
    cases hlength
  have htake : source.toList.take (2 ^ 32) = source.toList :=
    List.take_of_length_le (Nat.le_of_eq (String.length_toList.trans hlength))
  refine ⟨source, _, _, rfl, rfl, rfl, not_agrees_of_after_eq_zero hne ?_ ?_⟩
  · rw [hlength]
    rfl
  · rw [run_bumps, htake]

end Session

end EffectLang.Text
