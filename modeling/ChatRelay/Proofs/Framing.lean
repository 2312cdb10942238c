import ChatRelay.Proofs.Receiving

/-!
# Framing does not depend on how bytes arrive

`verdicts` is the reference: the bytes as one list, cut after each LF, each line judged alone.
`play` is what happens: bytes, failing reads and ends of stream arrive in any order between calls to
`receive`, and a call is abandoned where it would wait. `verdicts_eq_judged` compares the two, and
the main statement is `framing_independent_of_arrival`.
-/

namespace ChatRelay.Connection

open Transport Wire

instance (bytes : List UInt8) : Decidable (Overlong bytes) :=
  inferInstanceAs (Decidable (_ ∧ _))

/-- The verdicts on the bytes: each line is judged alone, up to where the longest line goes by
without an LF. A tail without LF gets no verdict. -/
def verdicts (bytes : List UInt8) : List (Except Failure Message) :=
  if Overlong bytes then [tooLong]
  else
    match _h : Line.cut? bytes with
    | none => []
    | some (line, rest) => judge line :: verdicts rest
termination_by bytes.length
decreasing_by exact Line.length_cut?_lt _h

/-- What happens to a connection that is only read: something arrives at its stream, or a message
is asked for. -/
inductive Turn where
  | arrive (arrival : Arrival)
  | call
  deriving DecidableEq, Repr

/-- Everything that arrives. -/
def arrivals : List Turn → List Arrival
  | [] => []
  | .arrive arrival :: rest => arrival :: arrivals rest
  | .call :: rest => arrivals rest

/-- The connection after these turns, and the answers to the calls; none for a call that was
abandoned. -/
def play (c : Connection) : List Turn → Connection × List (Option (Except Failure Message))
  | [] => (c, [])
  | .arrive arrival :: rest => (c.feed [arrival]).play rest
  | .call :: rest =>
      let (last, answers) := c.receive.1.play rest
      (last, c.receive.2 :: answers)

/-- The answer says something of a line: the call was not abandoned, and it was not the stream that
failed or ended. -/
def verdict? : Option (Except Failure Message) → Option (Except Failure Message)
  | some (.error (.io _)) | some (.error .closed) => none
  | answer => answer

/-- The verdicts among the answers to the calls of these turns. -/
def judged (c : Connection) (turns : List Turn) : List (Except Failure Message) :=
  (c.play turns).2.filterMap verdict?

/-- The verdict is that a line is too long. -/
def isTooLong : Except Failure Message → Bool
  | .error (.protocol (.lineTooLong _)) => true
  | _ => false

/-- The verdicts up to the first line that is too long, which is included. -/
def uptoTooLong : List (Except Failure Message) → List (Except Failure Message)
  | [] => []
  | verdict :: rest => if isTooLong verdict then [verdict] else verdict :: uptoTooLong rest

/-- No line that is judged alone is found too long. -/
theorem isTooLong_judge (line : List UInt8) : isTooLong (judge line) = false := by
  unfold judge Line.read
  cases Text.ofUtf8? line with
  | none => rfl
  | some text =>
      simp only
      cases hdecode : Message.decode text with
      | error violation =>
          unfold Message.decode at hdecode
          dsimp only at hdecode
          split at hdecode
          · cases hdecode
            rfl
          · split at hdecode
            · cases hdecode
              rfl
            · cases hdecode
      | ok m =>
          simp only
          unfold Message.validate
          by_cases hterminator : Text.hasTerminator m.payload
          · rw [if_pos hterminator]
            rfl
          · by_cases hsize : Text.size m.payload > maxPayload
            · rw [if_neg hterminator, if_pos hsize]
              rfl
            · rw [if_neg hterminator, if_neg hsize]
              rfl

/-- A line at the head is judged, and the verdicts go on behind it. -/
theorem verdicts_line {line : List UInt8} (hline : IsLine line) (hsize : line.length ≤ maxLine)
    (rest : List UInt8) : verdicts (line ++ rest) = judge line :: verdicts rest := by
  obtain ⟨body, rfl, hfree⟩ := hline
  have hcut : Line.cut? (body ++ [lineFeed] ++ rest) = some (body ++ [lineFeed], rest) := by
    simpa using Line.cut?_line_append rest hfree
  have hnot : ¬Overlong (body ++ [lineFeed] ++ rest) := by
    intro hoverlong
    obtain ⟨-, hnone⟩ := hoverlong
    apply hnone
    rw [List.take_append, List.take_of_length_le hsize]
    simp
  rw [verdicts, if_neg hnot]
  split
  · rename_i hnone
    rw [hcut] at hnone
    cases hnone
  · rename_i head tail hsome
    rw [hcut] at hsome
    cases hsome
    rfl

theorem verdicts_overlong {bytes : List UInt8} (h : Overlong bytes) :
    verdicts bytes = [tooLong] := by
  rw [verdicts, if_pos h]

theorem verdicts_eq_nil {bytes : List UInt8} (h : NoVerdict bytes) : verdicts bytes = [] := by
  have hnot : ¬Overlong bytes := fun hlong ↦ Nat.not_le_of_lt h.2 hlong.1
  rw [verdicts, if_neg hnot]
  split
  · rfl
  · rename_i line rest hcut
    rw [Line.cut?_eq_none_iff.mpr h.1] at hcut
    cases hcut

@[simp] theorem play_call (c : Connection) (rest : List Turn) :
    c.play (.call :: rest) =
      ((c.receive.1.play rest).1, c.receive.2 :: (c.receive.1.play rest).2) :=
  rfl

theorem play_append (c : Connection) (first second : List Turn) :
    c.play (first ++ second) =
      (((c.play first).1.play second).1, (c.play first).2 ++ ((c.play first).1.play second).2) := by
  induction first generalizing c with
  | nil => rfl
  | cons turn rest ih =>
      cases turn with
      | arrive arrival => exact ih (c.feed [arrival])
      | call => simp [ih c.receive.1]

theorem judged_append (c : Connection) (first second : List Turn) :
    c.judged (first ++ second) = c.judged first ++ (c.play first).1.judged second := by
  simp [judged, play_append]

theorem isOpen_play (c : Connection) (turns : List Turn) :
    (c.play turns).1.isOpen = c.isOpen := by
  induction turns generalizing c with
  | nil => rfl
  | cons turn rest ih =>
      cases turn with
      | arrive arrival => exact ih (c.feed [arrival])
      | call => exact (ih c.receive.1).trans (isOpen_receive c)

/-- A loss counts as no verdict. -/
theorem verdict?_of_isLoss {failure : Failure} (h : IsLoss failure) :
    verdict? (some (.error failure)) = none := by
  cases failure <;> first | rfl | exact h.elim

/-- A line's verdict counts. -/
theorem verdict?_judge (line : List UInt8) : verdict? (some (judge line)) = some (judge line) := by
  unfold judge
  cases Line.read line <;> rfl

/-- What a call adds to the verdicts: none, and it takes nothing; one on the line at the head; or
that the line is too long. -/
theorem judged_call {c : Connection} (hopen : c.isOpen = true) (rest : List Turn) :
    (c.judged (.call :: rest) = c.receive.1.judged rest ∧
      ∀ more, (c.receive.1.feed more).backlog = (c.feed more).backlog) ∨
    (∃ line, IsLine line ∧ line.length ≤ maxLine ∧
      c.judged (.call :: rest) = judge line :: c.receive.1.judged rest ∧
      ∀ more, (c.feed more).backlog = line ++ (c.receive.1.feed more).backlog) ∨
    (c.judged (.call :: rest) = tooLong :: c.receive.1.judged rest ∧
      ∀ more, Overlong (c.feed more).backlog) := by
  have houtcome := receive_outcome hopen (Prod.ext rfl rfl : c.receive = (_, _))
  have hjudged : c.judged (.call :: rest) =
      (verdict? c.receive.2).toList ++ c.receive.1.judged rest := by
    cases hverdict : verdict? c.receive.2 <;> simp [judged, hverdict]
  rw [hjudged]
  cases hanswer : c.receive.2 with
  | none =>
      rw [hanswer] at houtcome
      cases houtcome with
      | waiting hkept => exact .inl ⟨rfl, hkept⟩
  | some result =>
      rw [hanswer] at houtcome
      cases houtcome with
      | judged line hline hsize htaken =>
          exact .inr (.inl ⟨line, hline, hsize, by rw [verdict?_judge]; rfl, htaken⟩)
      | overlong hlong => exact .inr (.inr ⟨rfl, hlong⟩)
      | lost failure hloss hkept => exact .inl ⟨by rw [verdict?_of_isLoss hloss]; rfl, hkept⟩

/-- The verdicts on all bytes are those given so far, and those on what is left; none come behind a
line that is too long. -/
theorem verdicts_eq_judged {c : Connection} (hopen : c.isOpen = true) (turns : List Turn) :
    verdicts (c.feed (arrivals turns)).backlog =
      uptoTooLong (c.judged turns) ++
        if (c.judged turns).any isTooLong then [] else verdicts (c.play turns).1.backlog := by
  induction turns generalizing c with
  | nil => simp [arrivals, judged, play, uptoTooLong]
  | cons turn rest ih =>
      cases turn with
      | arrive arrival =>
          have hrest := ih (c := c.feed [arrival]) hopen
          rwa [feed_feed] at hrest
      | call =>
          have hrest := ih ((isOpen_receive c).trans hopen)
          rcases judged_call hopen rest with
            ⟨hjudged, hkept⟩ | ⟨line, hline, hsize, hjudged, htaken⟩ | ⟨hjudged, hlong⟩
          · rw [hjudged, play_call, arrivals, ← hkept]
            exact hrest
          · rw [hjudged, play_call, arrivals, htaken, verdicts_line hline hsize, hrest]
            simp [uptoTooLong, isTooLong_judge]
          · rw [hjudged, arrivals, verdicts_overlong (hlong _)]
            simp [uptoTooLong, isTooLong, tooLong]

/-- As long as no line is too long, the bytes are the lines judged, one after the other, and what is
left. -/
theorem backlog_eq_lines {c : Connection} (hopen : c.isOpen = true) (turns : List Turn)
    (hfit : (c.judged turns).any isTooLong = false) :
    ∃ lines : List (List UInt8), (∀ line ∈ lines, IsLine line) ∧
      c.judged turns = lines.map judge ∧
      (c.feed (arrivals turns)).backlog = lines.flatten ++ (c.play turns).1.backlog := by
  induction turns generalizing c with
  | nil => exact ⟨[], by simp, rfl, by simp [arrivals, play]⟩
  | cons turn rest ih =>
      cases turn with
      | arrive arrival =>
          obtain ⟨lines, hlines, hjudged, hbytes⟩ := ih (c := c.feed [arrival]) hopen hfit
          rw [feed_feed] at hbytes
          exact ⟨lines, hlines, hjudged, hbytes⟩
      | call =>
          have hnext : c.receive.1.isOpen = true := (isOpen_receive c).trans hopen
          rcases judged_call hopen rest with
            ⟨hsame, hkept⟩ | ⟨line, hline, hsize, hmore, htaken⟩ | ⟨hlast, hlong⟩
          · obtain ⟨lines, hlines, hjudged, hbytes⟩ := ih hnext (hsame ▸ hfit)
            exact ⟨lines, hlines, hsame.trans hjudged, (hkept _).symm.trans hbytes⟩
          · rw [hmore, List.any_cons, Bool.or_eq_false_iff] at hfit
            obtain ⟨lines, hlines, hjudged, hbytes⟩ := ih hnext hfit.2
            refine ⟨line :: lines, ?_, ?_, ?_⟩
            · simpa using ⟨hline, hlines⟩
            · rw [hmore, hjudged, List.map_cons]
            · rw [arrivals, htaken, hbytes, List.flatten_cons, List.append_assoc, play_call]
          · simp [hlast, tooLong, isTooLong] at hfit

/-- Enough calls come to a line that is too long, or leave nothing that could be judged. -/
theorem exists_calls_exhaust {c : Connection} (hopen : c.isOpen = true) :
    ∃ n, (c.judged (List.replicate n .call)).any isTooLong = true ∨
      NoVerdict (c.play (List.replicate n .call)).1.backlog := by
  -- each call that does not settle the matter takes a line off the backlog or an arrival away
  generalize hsize : c.backlog.length + c.stream.arrivals.length = size
  induction size using Nat.strongRecOn generalizing c with
  | ind size ih =>
      have hnext : c.receive.1.isOpen = true := (isOpen_receive c).trans hopen
      have hle := length_arrivals_receive_le c
      have hagain (hless : c.receive.1.backlog.length + c.receive.1.stream.arrivals.length < size) :
          ∃ n, (c.judged (List.replicate n .call)).any isTooLong = true ∨
            NoVerdict (c.play (List.replicate n .call)).1.backlog := by
        obtain ⟨n, hn⟩ := ih _ hless hnext rfl
        refine ⟨n + 1, hn.imp (fun hlong ↦ ?_) id⟩
        rw [List.replicate_succ, ← List.singleton_append, judged_append, List.any_append]
        exact Bool.or_eq_true_iff.mpr (.inr hlong)
      have houtcome := receive_outcome hopen (Prod.ext rfl rfl : c.receive = (_, _))
      generalize hanswer : c.receive.2 = answer at houtcome
      cases houtcome with
      | judged line hline hlength htaken =>
          obtain ⟨body, rfl, -⟩ := hline
          have hbytes := congrArg List.length (htaken [])
          simp only [feed_nil, List.length_append, List.length_singleton] at hbytes
          exact hagain (by omega)
      | overlong hlong =>
          refine ⟨1, .inl ?_⟩
          simp [judged, play, hanswer, verdict?, tooLong, isTooLong]
      | lost failure hloss hkept hspent =>
          have hbytes := congrArg List.length (hkept [])
          simp only [feed_nil] at hbytes
          rcases hspent with hless | hnone
          · exact hagain (by omega)
          · exact ⟨1, .inr hnone⟩
      | waiting hkept hempty hnone => exact ⟨1, .inr hnone⟩

/-- Once nothing is left that could be judged, calls give no more verdicts. -/
theorem judged_replicate_of_noVerdict {c : Connection} (hopen : c.isOpen = true)
    (hnone : NoVerdict c.backlog) (m : Nat) : c.judged (List.replicate m .call) = [] := by
  have hnil : arrivals (List.replicate m .call) = [] := by
    induction m with
    | zero => rfl
    | succ m ih => exact ih
  have hall := verdicts_eq_judged hopen (List.replicate m .call)
  rw [hnil, feed_nil, verdicts_eq_nil hnone, eq_comm, List.append_eq_nil_iff] at hall
  cases hjudged : c.judged (List.replicate m .call) with
  | nil => rfl
  | cons verdict rest =>
      have hupto := hall.1
      rw [hjudged, uptoTooLong] at hupto
      split at hupto <;> cases hupto

/-- The verdicts are complete once a line is too long or nothing is left that could be judged. -/
theorem uptoTooLong_judged_eq {c : Connection} (hopen : c.isOpen = true) (turns : List Turn)
    (hdone : (c.judged turns).any isTooLong = true ∨ NoVerdict (c.play turns).1.backlog) :
    uptoTooLong (c.judged turns) = verdicts (c.feed (arrivals turns)).backlog := by
  rw [verdicts_eq_judged hopen turns]
  rcases hdone with hlong | hnone
  · simp [hlong]
  · simp [verdicts_eq_nil hnone]

@[simp] theorem arrivals_append_calls (turns : List Turn) (n : Nat) :
    arrivals (turns ++ List.replicate n .call) = arrivals turns := by
  induction turns with
  | nil =>
      induction n with
      | zero => rfl
      | succ n ih => exact ih
  | cons turn rest ih =>
      cases turn with
      | arrive arrival => exact congrArg (arrival :: ·) ih
      | call => exact ih

/-- However the bytes of a stream arrive, and however many calls fail or are abandoned on the way,
the verdicts of repeated receives are a first part of the verdicts on all the bytes taken together,
up to the first line that is too long. They are all of them once a call would wait for more, and
enough calls get that far. Until a line is too long, the bytes are exactly the lines judged, each in
one piece and in order, and a rest that is still there. -/
theorem framing_independent_of_arrival (stream : Stream) (turns : List Turn) :
    let c : Connection := { stream }
    let bytes := (c.feed (arrivals turns)).stream.unread
    uptoTooLong (c.judged turns) <+: verdicts bytes ∧
      ((c.play turns).1.receive.2 = none → uptoTooLong (c.judged turns) = verdicts bytes) ∧
      (∃ n, ∀ m, n ≤ m →
        uptoTooLong (c.judged (turns ++ List.replicate m .call)) = verdicts bytes) ∧
      ((c.judged turns).any isTooLong = false →
        ∃ lines : List (List UInt8), (∀ line ∈ lines, IsLine line) ∧
          c.judged turns = lines.map judge ∧
          bytes = lines.flatten ++ (c.play turns).1.backlog) := by
  intro c bytes
  have hopen : c.isOpen = true := rfl
  have hlast : (c.play turns).1.isOpen = true := isOpen_play c turns
  have hbytes : (c.feed (arrivals turns)).backlog = bytes := rfl
  refine ⟨?_, ?_, ?_, backlog_eq_lines hopen turns⟩
  · rw [← hbytes, verdicts_eq_judged hopen turns]
    exact List.prefix_append _ _
  · intro hwait
    have houtcome := receive_outcome hlast (Prod.ext rfl rfl : (c.play turns).1.receive = (_, _))
    rw [hwait] at houtcome
    cases houtcome with
    | waiting hkept _ hnone =>
        have hsame := hkept []
        rw [feed_nil, feed_nil] at hsame
        exact uptoTooLong_judged_eq hopen turns (.inr (hsame ▸ hnone))
  · obtain ⟨n, hn⟩ := exists_calls_exhaust hlast
    refine ⟨n, fun m hm ↦ ?_⟩
    obtain ⟨k, rfl⟩ := Nat.exists_eq_add_of_le hm
    have hsplit : turns ++ List.replicate (n + k) .call =
        (turns ++ List.replicate n .call) ++ List.replicate k .call := by
      rw [List.append_assoc, List.replicate_append_replicate]
    have hopen' : (c.play (turns ++ List.replicate n .call)).1.isOpen = true :=
      isOpen_play c _
    rw [← hbytes, ← arrivals_append_calls turns (n + k)]
    rcases hn with hlong | hnone
    -- after a line that is too long, further calls do not count
    · refine uptoTooLong_judged_eq hopen _ (.inl ?_)
      rw [hsplit, judged_append, judged_append, List.any_append, List.any_append, hlong]
      simp
    -- and with nothing left to be judged, they add nothing
    · have hdone : NoVerdict (c.play (turns ++ List.replicate n .call)).1.backlog := by
        rw [play_append]
        exact hnone
      have hjudged : c.judged (turns ++ List.replicate (n + k) .call) =
          c.judged (turns ++ List.replicate n .call) := by
        rw [hsplit, judged_append, judged_replicate_of_noVerdict hopen' hdone, List.append_nil]
      rw [hjudged, arrivals_append_calls, ← arrivals_append_calls turns n]
      exact uptoTooLong_judged_eq hopen _ (.inr hdone)

end ChatRelay.Connection
