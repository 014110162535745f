import Crowdsensing.Modes.Targets

/-!
# The size of an answer

The edge puts all the replies of a session into one Data packet.  Neither the locations a
request names nor the replies have a limit, and the packet has one.

* `lineSize` — the most that a reply adds to the answer of its session, with
  `length_replyText`.
* `Interest.wireSize` — the most bytes that an Interest takes.
* `AnswersFit` — no answer of a session is larger than a packet.
* `exists_answer` — a run that answers a session with any replies to its sub-Interests.
* `answersFit_iff` — **the answers fit exactly if the lines of the replies do.**
* `one_packet_iff` — the condition on the request, whether every reply names its own location
  or any.
-/

namespace Crowdsensing

open Text

/-! ## Sizes -/

/-- The largest packet a face takes. -/
def maxPacketSize : ℕ := 8800

/-- The most that a reply adds to the answer of its session: the texts of the location, the
target and the session id, and 75 bytes for the rest of a negative verdict and the line end. -/
def lineSize (lib : Externals) (d : UInt64) (t l : Str) : ℕ :=
  75 + (lib.dump (.string l)).length + (lib.dump (.string t)).length + (decimal d.toNat).length

/-- A block of the packet format: its type, its length and what it holds. -/
def blockSize (length : ℕ) : ℕ :=
  1 + (if length < 253 then 1 else if length < 2 ^ 16 then 3 else if length < 2 ^ 32 then 5 else 9) +
    length

/-- The size of a name component, with the longest number. -/
def Component.wireSize : Component → ℕ
  | .generic value => blockSize value.length
  | .version _ => blockSize 9
  | .segment _ => blockSize 9

/-- The most bytes an Interest takes: with the digest of its parameters in the name, and with
both selectors, a nonce, a lifetime and a hop limit. -/
def Interest.wireSize (interest : Interest) : ℕ :=
  let name := (interest.name.map Component.wireSize).sum + blockSize 32
  let parameters := interest.applicationParameters.elim 0 fun value => blockSize value.length
  blockSize (blockSize name + blockSize 0 + blockSize 0 + blockSize 4 + blockSize 8 +
    blockSize 1 + parameters)

/-- **The length of a reply**: a positive verdict is one byte shorter. -/
theorem length_replyText {lib : Externals} (hdump : lib.DumpDocumented) (d : UInt64) (l t : Str)
    (labels : List Str) :
    (replyText lib d l t labels).length + (if t ∈ labels then 2 else 1) = lineSize lib d t l := by
  have hid : lib.dump (.string (decimal d.toNat)) = 34 :: decimal d.toNat ++ [34] := by
    exact hdump.dump_string _ fun b hb => Or.inl (isAlnum_of_mem_decimal hb)
  have hempty : lib.dump (.string []) = [34, 34] := hdump.dump_string [] (by simp)
  have hverdict : (lib.dump (.bool (decide (t ∈ labels)))).length + (if t ∈ labels then 2 else 1) =
      6 := by
    rw [hdump.dump_bool]
    by_cases ht : t ∈ labels
    · rw [if_pos ht, if_pos (decide_eq_true ht)]
      rfl
    · rw [if_neg ht, if_neg (by simpa using ht)]
      rfl
  have hlengths : (txt "isFound").length = 7 ∧ (txt "location").length = 8 ∧
      (txt "session_id").length = 10 ∧ (txt "target").length = 6 ∧ (txt "time").length = 4 ∧
      (txt ": ").length = 2 ∧ (txt ", ").length = 2 := by decide
  obtain ⟨h1, h2, h3, h4, h5, h6, h7⟩ := hlengths
  rw [replyText, encode_eq hdump]
  simp only [replyFor, hid, hempty, List.length_append, List.length_cons, List.length_nil, h1, h2,
    h3, h4, h5, h6, h7, lineSize]
  omega

/-- The line of a location and a target of letters and digits. -/
theorem lineSize_of_isAlnum {lib : Externals} (hdump : lib.DumpDocumented) (d : UInt64)
    {l t : Str} (hl : ∀ b ∈ l, isAlnum b = true) (ht : ∀ b ∈ t, isAlnum b = true) :
    lineSize lib d t l = 79 + l.length + t.length + (decimal d.toNat).length := by
  rw [lineSize, hdump.dump_string l fun b hb => Or.inl (hl b hb),
    hdump.dump_string t fun b hb => Or.inl (ht b hb)]
  simp only [List.length_append, List.length_cons, List.length_nil]
  omega

/-! ## A session that is answered -/

/-- The event that brings a reply: a result in cloud mode, a Data packet otherwise. -/
def replyEvent (mode : UInt8) (text : Str) : Event :=
  if mode = ch 'c' then .result text else .data { name := [] } { name := [], content := text }

/-- The replies of a session about a target, at these locations and with these labels. -/
def repliesAbout (lib : Externals) (d : UInt64) (t : Str) (replies : List (Str × List Str)) :
    List Str :=
  replies.map fun r => replyText lib d r.1 t r.2

section

variable {lib : Externals} {mode : UInt8} {interest : Interest} {version : ℕ} {d : UInt64}

theorem replyEvent_payload (mode : UInt8) (text : Str) :
    (replyEvent mode text).payload = some text := by
  unfold replyEvent
  split <;> rfl

theorem replyEvent_opening (mode : UInt8) (text : Str) : (replyEvent mode text).opening = none := by
  unfold replyEvent
  split <;> rfl

/-- The first request of an edge. -/
theorem first_request {q : Producer}
    (h : (Producer.start mode).step lib (.interest interest version d) = some q) :
    q.view d = View.live d (packetFor interest version) [] ∧ q.numberOfArrivalInterest = 0 ∧
      q.issuedInterest = issued lib interest := by
  have hview := Producer.view_step h d
  refine ⟨?_, Producer.counters_handleInterest (Producer.handleInterest_of_step h)⟩
  rcases blank_step hview with ⟨-, hnot⟩ | ⟨i, v, hevent, hlive⟩
  · exact absurd rfl hnot
  · simp only [Event.interest.injEq] at hevent
    obtain ⟨rfl, rfl, -⟩ := hevent
    exact hlive

variable (mode) in
/-- **Replies are collected as long as one is missing.** -/
theorem exec_replies {texts : List Str} {p : Producer} {packet : Data} {ps : List Str}
    (hnamed : ∀ text ∈ texts, Producer.sessionIdOf lib text = .ok (some d))
    (hview : p.view d = View.live d packet ps)
    (hcount : p.numberOfArrivalInterest + texts.length < p.issuedInterest) :
    ∃ p', Runs.exec (Producer.step lib) p (texts.map (replyEvent mode)) = some p' ∧
      p'.view d = View.live d packet (ps ++ texts) ∧
      p'.numberOfArrivalInterest = p.numberOfArrivalInterest + texts.length ∧
      p'.issuedInterest = p.issuedInterest := by
  induction texts generalizing p ps with
  | nil => exact ⟨p, rfl, by rw [List.append_nil, hview], rfl, rfl⟩
  | cons text texts ih =>
    rw [List.length_cons] at hcount
    have he := Event.named_of_payload (replyEvent_payload mode text)
      (hnamed text List.mem_cons_self)
    have hstep : p.step lib (replyEvent mode text) = some (p.collect text d) := by
      rw [Producer.step_of_named he, if_neg (by omega)]
    have hcollect : (p.collect text d).view d = View.live d packet (ps ++ [text]) := by
      rw [Producer.view_collect, if_pos rfl, hview, received_live]
    have hmore : (p.collect text d).numberOfArrivalInterest + texts.length <
        (p.collect text d).issuedInterest := by
      show p.numberOfArrivalInterest + 1 + texts.length < p.issuedInterest
      omega
    obtain ⟨p', hrun, hlive, harrival, hissued⟩ :=
      ih (fun x hx => hnamed x (List.mem_cons_of_mem _ hx)) hcollect hmore
    refine ⟨p', ?_, ?_, ?_, hissued⟩
    · rw [List.map_cons, Runs.exec_cons, hstep, Option.bind_some, hrun]
    · rw [hlive, List.append_assoc, List.singleton_append]
    · rw [harrival, List.length_cons]
      show p.numberOfArrivalInterest + 1 + texts.length = _
      omega

variable (mode) in
/-- **A live session is answered**: by its last reply, or by its timer if one is missing. -/
theorem exec_answer {texts : List Str} {p : Producer} {packet : Data}
    (hnamed : ∀ text ∈ texts, Producer.sessionIdOf lib text = .ok (some d))
    (hview : p.view d = View.live d packet []) (hzero : p.numberOfArrivalInterest = 0)
    (hpos : 0 < p.issuedInterest) (hle : texts.length ≤ p.issuedInterest) :
    ∃ tail p', (tail = [] ∨ tail = [.expiry d]) ∧
      Runs.exec (Producer.step lib) p (texts.map (replyEvent mode) ++ tail) = some p' ∧
      View.Done packet texts (p'.view d) := by
  rcases Nat.lt_or_eq_of_le hle with hlt | heq
  · obtain ⟨q, hrun, hlive, -, -⟩ := exec_replies mode hnamed hview (by omega)
    rw [List.nil_append] at hlive
    have harmed : d ∈ q.timers.waiting := by
      refine List.count_pos_iff.1 ?_
      rw [show q.timers.waiting.count d = 1 from congrArg View.waiting hlive]
      exact Nat.one_pos
    have hstep : q.step lib (.expiry d) =
        some ({ q with timers := q.timers.fire d }.finish d) := by
      rw [Producer.step_expiry, if_pos harmed]
    refine ⟨[.expiry d], _, Or.inr rfl, Runs.exec_concat.2 ⟨q, hrun, hstep⟩, ?_⟩
    rw [Producer.view_finish, if_pos rfl, Producer.view_fire, if_pos rfl, hlive]
    exact ⟨rfl, rfl, rfl⟩
  · rcases List.eq_nil_or_concat' texts with rfl | ⟨init, last, rfl⟩
    · rw [List.length_nil] at heq
      omega
    · rw [List.length_append, List.length_singleton] at heq
      obtain ⟨q, hrun, hlive, harrival, hissued⟩ := exec_replies mode
        (fun x hx => hnamed x (List.mem_append_left _ hx)) hview (by omega)
      rw [List.nil_append] at hlive
      have he := Event.named_of_payload (replyEvent_payload mode last)
        (hnamed last (List.mem_append_right _ (List.mem_singleton_self last)))
      have hstep : q.step lib (replyEvent mode last) =
          some ((q.collect last d).finish d).clearCounters := by
        rw [Producer.step_of_named he, if_pos (by omega)]
      refine ⟨[], ((q.collect last d).finish d).clearCounters, Or.inl rfl, ?_, ?_⟩
      · rw [List.append_nil, List.map_append, List.map_singleton]
        exact Runs.exec_concat.2 ⟨q, hrun, hstep⟩
      · rw [Producer.view_clearCounters, Producer.view_finish, if_pos rfl, Producer.view_collect,
          if_pos rfl, hlive, received_live]
        exact answered_live

/-- What a session has collected of events that only bring replies. -/
theorem payloads_of_replies {texts : List Str} {tail : List Event}
    (hnamed : ∀ text ∈ texts, Producer.sessionIdOf lib text = .ok (some d))
    (htail : tail = [] ∨ tail = [.expiry d]) :
    payloads lib d (.interest interest version d :: (texts.map (replyEvent mode) ++ tail)) =
      texts := by
  have hsince : sinceOpened d (.interest interest version d ::
      (texts.map (replyEvent mode) ++ tail)) = texts.map (replyEvent mode) ++ tail := by
    rw [sinceOpened, List.dropWhile_cons_of_neg (by simp [Event.opening]), List.tail_cons]
  have htexts : (texts.map (replyEvent mode)).filterMap (Event.payloadFor lib d) = texts := by
    rw [List.filterMap_map]
    refine (List.filterMap_congr fun text htext => ?_).trans List.filterMap_some
    exact payloadFor_of_named
      (Event.named_of_payload (replyEvent_payload mode text) (hnamed text htext))
  have hnone : tail.filterMap (Event.payloadFor lib d) = [] := by
    rcases htail with rfl | rfl
    · rfl
    · exact List.filterMap_cons_none (payloadFor_of_payload rfl)
  rw [payloads, hsince, List.filterMap_append, htexts, hnone, List.append_nil]

/-- **Any replies to the sub-Interests of a request, at most one for each, are what its session
is answered with in some run.** -/
theorem exists_answer {q : Producer} {texts : List Str}
    (hq : (Producer.start mode).step lib (.interest interest version d) = some q)
    (hnamed : ∀ text ∈ texts, Producer.sessionIdOf lib text = .ok (some d))
    (hle : texts.length ≤ issued lib interest) :
    ∃ es p, Runs.exec (Producer.step lib) (Producer.start mode)
        (.interest interest version d :: es) = some p ∧
      opened (.interest interest version d :: es) = [d] ∧
      payloads lib d (.interest interest version d :: es) = texts ∧
      putsFor d p.face.puts = [(packetFor interest version).setContent (collected texts)] := by
  obtain ⟨hview, hzero, hissued⟩ := first_request hq
  have hpos := issued_pos lib interest
  obtain ⟨tail, p, htail, hrun, hdone⟩ := exec_answer mode hnamed hview hzero
    (by omega) (by omega)
  refine ⟨texts.map (replyEvent mode) ++ tail, p, ?_, ?_, payloads_of_replies hnamed htail,
    hdone.puts⟩
  · rw [Runs.exec_cons, hq, Option.bind_some, hrun]
  · have htexts : (texts.map (replyEvent mode)).filterMap Event.opening = [] := by
      rw [List.filterMap_map]
      exact List.filterMap_eq_nil_iff.2 fun text _ => replyEvent_opening mode text
    have hfirst : (Event.interest interest version d).opening = some d := rfl
    rw [opened, List.filterMap_cons_some hfirst, List.filterMap_append, htexts]
    rcases htail with rfl | rfl <;> rfl

/-! ## When the answers fit -/

/-- Whatever replies about the target come to the session, of locations that are allowed
together, the content put for it is no larger than a packet: in every run, at whatever point
the session is answered. -/
def AnswersFit (lib : Externals) (mode : UInt8) (interest : Interest) (d : UInt64) (t : Str)
    (allowed : List Str → Prop) : Prop :=
  ∀ (version : ℕ) (es : List Event) (p : Producer) (replies : List (Str × List Str)),
    Runs.exec (Producer.step lib) (Producer.start mode) es = some p → (opened es).Nodup →
    .interest interest version d ∈ es → allowed (replies.map Prod.fst) →
    payloads lib d es = repliesAbout lib d t replies →
    ∀ data ∈ putsFor d p.face.puts, data.content.length ≤ maxPacketSize

theorem repliesAbout_named (hjson : lib.JsonDocumented) (hcast : lib.CastDocumented) {t : Str}
    {replies : List (Str × List Str)} :
    ∀ text ∈ repliesAbout lib d t replies, Producer.sessionIdOf lib text = .ok (some d) := by
  intro text htext
  obtain ⟨r, -, rfl⟩ := List.mem_map.1 htext
  exact Producer.sessionIdOf_encode hjson hcast rfl

/-- The answer is no longer than the lines of its replies. -/
theorem length_collected_le (hdump : lib.DumpDocumented) (t : Str)
    (replies : List (Str × List Str)) :
    (collected (repliesAbout lib d t replies)).length ≤
      ((replies.map Prod.fst).map (lineSize lib d t)).sum := by
  rw [length_collected, repliesAbout, List.map_map, List.map_map]
  refine List.sum_le_sum fun r _ => ?_
  have hlength := length_replyText hdump d r.1 t r.2
  simp only [Function.comp_apply]
  split at hlength <;> omega

/-- The answer is as long as the lines of its replies if the target was found nowhere. -/
theorem length_collected_eq (hdump : lib.DumpDocumented) (t : Str) (locations : List Str) :
    (collected (repliesAbout lib d t (locations.map fun l => (l, [])))).length =
      (locations.map (lineSize lib d t)).sum := by
  rw [length_collected, repliesAbout, List.map_map, List.map_map]
  refine congrArg List.sum (List.map_congr_left fun l _ => ?_)
  have hlength := length_replyText hdump d l t []
  rw [if_neg List.not_mem_nil] at hlength
  exact hlength

/-- **The answers of a session fit into a packet exactly if the lines of its replies do**,
whatever locations they name. -/
theorem answersFit_iff (hjson : lib.JsonDocumented) (hcast : lib.CastDocumented)
    (hdump : lib.DumpDocumented) {t : Str} {allowed : List Str → Prop} {q : Producer}
    (haccepted : (Producer.start mode).step lib (.interest interest version d) = some q)
    (hcount : ∀ locations, allowed locations → locations.length ≤ issued lib interest) :
    AnswersFit lib mode interest d t allowed ↔
      ∀ locations, allowed locations →
        (locations.map (lineSize lib d t)).sum ≤ maxPacketSize := by
  constructor
  · intro hfit locations hallowed
    have hfst : (locations.map fun l => (l, ([] : List Str))).map Prod.fst = locations := by
      rw [List.map_map]
      exact List.map_id' _
    have hle : (repliesAbout lib d t (locations.map fun l => (l, []))).length ≤
        issued lib interest := by
      rw [repliesAbout, List.length_map, List.length_map]
      exact hcount locations hallowed
    obtain ⟨es, p, hrun, hopened, hpayloads, hputs⟩ :=
      exists_answer haccepted (repliesAbout_named hjson hcast) hle
    have hcontent := hfit version _ p (locations.map fun l => (l, [])) hrun
      (by rw [hopened]; exact List.nodup_singleton d) List.mem_cons_self
      (by rw [hfst]; exact hallowed) hpayloads _ (by rw [hputs]; exact List.mem_singleton_self _)
    rw [← length_collected_eq hdump]
    exact hcontent
  · intro hlines v es p replies hrun hfresh hmem hallowed hpayloads data hdata
    -- the content put is what was collected by then
    have hbegin : ∃ ps, ps <+: payloads lib d es ∧ data.content = collected ps := by
      rcases tracked es p hrun hfresh d with ⟨hnot, -⟩ | ⟨i, v', hopen, hlive | hdone⟩
      · exact absurd (mem_opened.2 ⟨interest, v, hmem⟩) hnot
      · have hnone : putsFor d p.face.puts = [] := congrArg View.puts hlive
        rw [hnone] at hdata
        exact absurd hdata List.not_mem_nil
      · obtain ⟨pre, e, post, _, _, hes, -, -, -, -, hv⟩ := hdone
        have hputs : putsFor d p.face.puts = _ := hv.puts
        rw [hputs] at hdata
        refine ⟨_, ?_, congrArg Data.content (List.mem_singleton.1 hdata)⟩
        rw [hes, List.append_cons pre e post]
        exact payloads_prefix lib d (pre ++ [e]) post
    obtain ⟨ps, ⟨rest, hrest⟩, hcontent⟩ := hbegin
    have hlength : (collected ps).length ≤ (collected (payloads lib d es)).length := by
      rw [← hrest, collected, collected, List.flatMap_append, List.length_append]
      exact Nat.le_add_right _ _
    have hle := length_collected_le hdump (d := d) t replies
    have hsum := hlines _ hallowed
    rw [hcontent]
    rw [hpayloads] at hlength
    omega

/-- Every reply names the location it is from, and each location replies at most once. -/
def OwnLocations (ls locations : List Str) : Prop := locations.Subperm ls

/-- The replies name locations of the request, and there are no more than sub-Interests. -/
def AnyLocations (ls locations : List Str) : Prop :=
  locations.length ≤ ls.length ∧ ∀ l ∈ locations, l ∈ ls

/-- What all locations together can add. -/
theorem ownLocations_fit_iff (size : Str → ℕ) (ls : List Str) (bound : ℕ) :
    (∀ locations, OwnLocations ls locations → (locations.map size).sum ≤ bound) ↔
      (ls.map size).sum ≤ bound := by
  constructor
  · intro h
    exact h ls (List.Subperm.refl ls)
  · rintro h locations ⟨l, hperm, hsub⟩
    have hsum := (hsub.map size).sum_le_sum fun _ _ => Nat.zero_le _
    rw [← (hperm.map size).sum_eq]
    omega

/-- What the same location can add again and again. -/
theorem anyLocations_fit_iff (size : Str → ℕ) (ls : List Str) (bound : ℕ) :
    (∀ locations, AnyLocations ls locations → (locations.map size).sum ≤ bound) ↔
      ∀ l ∈ ls, ls.length * size l ≤ bound := by
  constructor
  · intro h l hl
    have hsame := h (List.replicate ls.length l) ⟨by rw [List.length_replicate],
      fun l' hl' => List.eq_of_mem_replicate hl' ▸ hl⟩
    rwa [List.map_replicate, List.sum_replicate, smul_eq_mul] at hsame
  · rintro h locations ⟨hlength, hmem⟩
    rcases Nat.eq_zero_or_pos ls.length with hzero | hpos
    · obtain rfl : locations = [] := List.length_eq_zero_iff.1 (by omega)
      exact Nat.zero_le bound
    · have hall : ∀ n ∈ locations.map size, n ≤ bound / ls.length := by
        intro n hn
        obtain ⟨l, hl, rfl⟩ := List.mem_map.1 hn
        rw [Nat.le_div_iff_mul_le hpos, Nat.mul_comm]
        exact h l (hmem l hl)
      have hsum := List.sum_le_card_nsmul _ _ hall
      rw [List.length_map, smul_eq_mul] at hsum
      calc (locations.map size).sum ≤ locations.length * (bound / ls.length) := hsum
        _ ≤ ls.length * (bound / ls.length) := Nat.mul_le_mul_right _ hlength
        _ ≤ bound := Nat.mul_div_le bound ls.length

/-- **The answers of a session fit into a packet exactly if the lines of its locations do
together**, whatever target the replies are about; if a reply may name any location of the
request, exactly if as many lines of any one of them do. -/
theorem one_packet_iff (hjson : lib.JsonDocumented) (hcast : lib.CastDocumented)
    (hdump : lib.DumpDocumented) {s t : Str} {q : Producer}
    (hs : Producer.decodeURI (lib.toUri interest.name) = s)
    (haccepted : (Producer.start mode).step lib (.interest interest version d) = some q) :
    (AnswersFit lib mode interest d t (OwnLocations (locationsOf s)) ↔
      ((locationsOf s).map (lineSize lib d t)).sum ≤ maxPacketSize) ∧
    (AnswersFit lib mode interest d t (AnyLocations (locationsOf s)) ↔
      ∀ l ∈ locationsOf s, (locationsOf s).length * lineSize lib d t l ≤ maxPacketSize) := by
  have hissued : issued lib interest = (locationsOf s).length := by
    rw [issued, hs]
  constructor
  · rw [answersFit_iff hjson hcast hdump haccepted fun locations hown => ?_, ownLocations_fit_iff]
    rw [hissued]
    exact hown.length_le
  · rw [answersFit_iff hjson hcast hdump haccepted fun locations hany => ?_, anyLocations_fit_iff]
    rw [hissued]
    exact hany.1

end

/-! ## Two locations and a hundred -/

/-- In edge mode, a name the parsers take is asked for. -/
theorem exists_step_edge {lib : Externals} {interest : Interest}
    (h : Accepted (Producer.decodeURI (lib.toUri interest.name))) (version : ℕ) (d : UInt64) :
    ∃ q, (Producer.start (ch 'e')).step lib (.interest interest version d) = some q := by
  have hmem : (Producer.start (ch 'e')).onInterest lib interest version d ∈
      handlers lib (Producer.start (ch 'e')) interest version d := List.mem_cons_self
  obtain ⟨q, hok, -⟩ := handler_accepted h hmem
  have hcloud : (Producer.start (ch 'e')).edgeMode ≠ ch 'c' := by
    show ch 'e' ≠ ch 'c'
    decide
  have hedge : (Producer.start (ch 'e')).edgeMode = ch 'e' := rfl
  refine ⟨q, ?_⟩
  rw [Producer.step, Producer.handleInterest, if_neg hcloud, if_pos hedge, Option.bind_some, hok]
  rfl

/-- What the edge makes of a request of the page for a person. -/
theorem request_person {ls : List Str} (hls : Locations ls) :
    (∃ q, (Producer.start (ch 'e')).step reference
      (.interest (clientInterest ls (txt "person")) 1 7) = some q) ∧
    locationsOf (Producer.decodeURI (reference.toUri (clientInterest ls (txt "person")).name)) =
      ls ∧
    targetsOf (Producer.decodeURI (reference.toUri (clientInterest ls (txt "person")).name)) =
      [txt "person"] := by
  obtain ⟨front, hs⟩ := decodeURI_requestName reference_uri [txt "icn2020", txt "edge"]
    (txt "#f:detect") ls (txt "person")
  refine ⟨exists_step_edge ?_ 1 7, ?_, ?_⟩
  · rw [clientInterest, hs]
    exact accepted_request front (txt "#f:detect") (txt "person") hls
  · rw [clientInterest, hs]
    exact locationsOf_request front (txt "#f:detect") hls (by decide)
  · rw [clientInterest, hs, targetsOf, targetPart_request, piecesOf_lastWord (by decide)]
    decide

/-- The answers to the request of the page fit. -/
theorem one_packet_iff_page : AnswersFit reference (ch 'e')
    (clientInterest pageLocations (txt "person")) 7 (txt "person")
    (OwnLocations pageLocations) := by
  obtain ⟨⟨q, hq⟩, hlocations, -⟩ := request_person locations_pageLocations
  have hfit := (one_packet_iff (t := txt "person") reference_json reference_cast reference_dump
    rfl hq).1
  rw [hlocations] at hfit
  exact hfit.2 (by decide +kernel)

/-- A hundred locations, 30000 to 30099. -/
def hundredLocations : List Str := (List.range 100).map fun i => decimal (30000 + i)

theorem locations_hundredLocations : Locations hundredLocations where
  ne_nil := List.map_eq_nil_iff.not.2 (by decide)
  location_ne_nil := by
    intro l hl
    obtain ⟨i, -, rfl⟩ := List.mem_map.1 hl
    exact decimal_ne_nil _
  alnum := by
    intro l hl b hb
    obtain ⟨i, -, rfl⟩ := List.mem_map.1 hl
    exact isAlnum_of_mem_decimal hb

/-- The lines of the hundred locations. -/
theorem sum_hundredLocations :
    (hundredLocations.map (lineSize reference 7 (txt "person"))).sum = 9100 := by
  have hlength : ∀ l ∈ hundredLocations, l.length = 5 := by decide +kernel
  have hline : ∀ n ∈ hundredLocations.map (lineSize reference 7 (txt "person")), n = 91 := by
    intro n hn
    obtain ⟨l, hl, rfl⟩ := List.mem_map.1 hn
    rw [lineSize_of_isAlnum reference_dump 7 (locations_hundredLocations.alnum l hl)
      (by decide +kernel), hlength l hl]
    rfl
  have hcount : hundredLocations.length = 100 := by
    rw [hundredLocations, List.length_map, List.length_range]
  rw [List.sum_eq_card_nsmul _ 91 hline, List.length_map, hcount, smul_eq_mul]

/-- **A request for a hundred locations takes less than a kilobyte, and the replies to it can
take more than a packet.** -/
theorem answer_too_large :
    (clientInterest hundredLocations (txt "person")).wireSize < 1024 ∧
    (∃ q, (Producer.start (ch 'e')).step reference
      (.interest (clientInterest hundredLocations (txt "person")) 1 7) = some q) ∧
    locationsOf (Producer.decodeURI
      (reference.toUri (clientInterest hundredLocations (txt "person")).name)) =
        hundredLocations ∧
    targetsOf (Producer.decodeURI
      (reference.toUri (clientInterest hundredLocations (txt "person")).name)) =
        [txt "person"] ∧
    ¬ AnswersFit reference (ch 'e') (clientInterest hundredLocations (txt "person")) 7
      (txt "person") (OwnLocations hundredLocations) := by
  obtain ⟨⟨q, hq⟩, hlocations, htargets⟩ := request_person locations_hundredLocations
  refine ⟨by decide +kernel, ⟨q, hq⟩, hlocations, htargets, fun hfit => ?_⟩
  have hcount : ∀ locations, OwnLocations hundredLocations locations →
      locations.length ≤ issued reference (clientInterest hundredLocations (txt "person")) := by
    intro locations hown
    rw [issued, hlocations]
    exact hown.length_le
  have hlines := (answersFit_iff reference_json reference_cast reference_dump hq hcount).1 hfit
  have hsum := (ownLocations_fit_iff _ _ _).1 hlines
  rw [sum_hundredLocations] at hsum
  exact absurd hsum (by decide)

end Crowdsensing
