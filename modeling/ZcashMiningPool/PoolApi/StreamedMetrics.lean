import ZcashMiningPool.PoolApi.Readings

/-!
# Streamed metrics

The scrape stops when every target has a value, and hangs up.  What it has left over then is the
line that was carried over with the whole chunk after it, and this is parsed as one line.

* `readLine` — a terminated line; `streamed` — the reader over pieces of text, with what is left
  over; `fetch_fields` — it is what the scrape shows.
* `Stop` — where a body that arrives in pieces is left: the lines read, the lines unread, and the
  text left over.
* `streamed_of_never`, `streamed_of_stop` — what the reader holds without a stop and after one;
  `gauge_set_back` — a gauge that was in the line carried over.
* `NothingMissed` — what the text left over says as one line makes up for the lines unread;
  `Harmless` — so it is wherever the reader stops.

Main result: `streamed_agrees_iff`.  A counter that is cut short: `errors_lost`.
-/

set_option autoImplicit false

namespace ZcashMiningPool

namespace PoolApi

open Text

/-! ## The reader -/

def readLine (m : ZebraMetrics) (line : List Char) : ZebraMetrics :=
  parseLine (Lines.chomp '\r' line) m

def streamed (pieces : List (List Char)) : ZebraMetrics :=
  let out := Lines.readChunks '\n' readLine allTargetsFilled {} [] pieces
  if out.2 ≠ [] then parseLine out.2 out.1 else out.1

theorem readBody_eq (metricsUrl : String) {chunks : List (List UInt8)} (m : ZebraMetrics)
    (leftover : List Char) {bytesRead : ℕ}
    (hcap : bytesRead + chunks.flatten.length ≤ maxScrapeBytes) :
    readBody metricsUrl (chunks.map .ok) m leftover bytesRead
      = Lines.readChunks '\n' readLine allTargetsFilled m leftover (chunks.map fromUtf8Lossy) := by
  induction chunks generalizing m leftover bytesRead with
  | nil => rfl
  | cons chunk chunks ih =>
    rw [List.flatten_cons, List.length_append, ← Nat.add_assoc] at hcap
    have hunder : ¬ maxScrapeBytes < bytesRead + chunk.length := by omega
    rw [List.map_cons, List.map_cons, readBody, if_neg hunder, Lines.readChunks]
    dsimp only
    cases hnl : Lines.rfind '\n' (leftover ++ fromUtf8Lossy chunk) with
    | none =>
      have htail := Lines.rfind_eq_none hnl
      rw [Lines.terminated_tail htail, Lines.unfinished_tail htail]
      exact ih m _ hcap
    | some lastNl =>
      have hlines := Lines.lines_complete '\r' hnl
      obtain ⟨-, -, htail⟩ := Lines.split_complete hnl
      have hstep : (fun m line => parseLine (Lines.chomp '\r' line) m) = readLine := rfl
      dsimp only
      unfold lines
      rw [hlines, Lines.feed_map, hstep, htail]
      split
      · rfl
      · exact ih _ _ hcap

theorem fetch_fields (metricsUrl : String) (elapsedMs : UInt64) {code : ℕ}
    (hcode : 200 ≤ code ∧ code < 300) {chunks : List (List UInt8)}
    (hcap : chunks.flatten.length ≤ maxScrapeBytes) :
    (fetchZebraMetrics metricsUrl elapsedMs (.status code (chunks.map .ok))).fields
      = (streamed (chunks.map fromUtf8Lossy)).fields := by
  rw [fetchZebraMetrics, if_pos hcode, readBody_eq metricsUrl {} [] (by omega)]
  rfl

theorem fromUtf8Lossy_flatten {chunks : List (List UInt8)} (h : ∀ b ∈ chunks.flatten, b < 128) :
    (chunks.map fromUtf8Lossy).flatten = fromUtf8Lossy chunks.flatten := by
  have hchunk : ∀ chunk ∈ chunks, fromUtf8Lossy chunk = chunk.map (fun b => Char.ofNat b.toNat) :=
    fun chunk hmem => fromUtf8Lossy_of_ascii fun b hb => h b (List.mem_flatten_of_mem hmem hb)
  rw [fromUtf8Lossy_of_ascii h, List.map_congr_left hchunk, List.map_flatten]

/-! ## What has been read -/

/-- What terminated lines say. -/
def said (ls : List (List Char)) : List Reading := readings (ls.map (Lines.chomp '\r'))

theorem said_append (ls ls' : List (List Char)) : said (ls ++ ls') = said ls ++ said ls' := by
  rw [said, List.map_append, readings_append]
  rfl

theorem foldl_readLine (m : ZebraMetrics) (ls : List (List Char)) :
    ls.foldl readLine m = (said ls).foldl record m := by
  rw [said, ← foldl_parseLine, List.foldl_map]
  rfl

/-- No line takes a value away. -/
theorem readLine_filled (m : ZebraMetrics) (line : List Char) (h : allTargetsFilled m = true) :
    allTargetsFilled (readLine m line) = true := by
  rw [readLine, parseLine_eq]
  cases readingOf (Lines.chomp '\r' line) with
  | none => exact h
  | some r =>
    rw [Option.elim_some]
    rw [allTargetsFilled_eq_true] at h ⊢
    obtain ⟨hh, hg, hc, hv⟩ := h
    refine ⟨?_, fun g ht => ?_, fun c => ?_, ?_⟩
    · rw [record_height, Option.isSome_or, hh, Bool.true_or]
    · rw [record_gauge, Option.isSome_or, hg g ht, Bool.or_true]
    · rw [record_counter]
      split
      · rfl
      · exact hc c
    · rw [record_version, Option.isSome_or, hv, Bool.or_true]

/-- The reader stops within lines if and only if they have a reading for every target. -/
theorem feed_stops_iff (ls : List (List Char)) :
    (Lines.feed readLine allTargetsFilled {} ls).2 = true ↔ Filled (said ls) := by
  rw [Lines.feed_snd readLine_filled rfl, foldl_readLine, allTargetsFilled_iff]

theorem feed_goes_iff (ls : List (List Char)) :
    (Lines.feed readLine allTargetsFilled {} ls).2 = false ↔ ¬ Filled (said ls) := by
  rw [← feed_stops_iff, Bool.not_eq_true]

theorem parse_eq (body : List Char) :
    parseZebraMetrics body = (readings (lines body)).foldl record {} := foldl_parseLine {} (lines body)

/-- **Without a stop** the reader has parsed every line, and the last one at the end. -/
theorem streamed_of_never {pieces : List (List Char)}
    (h : ¬ Filled (said (Lines.terminated '\n' pieces.flatten))) :
    streamed pieces = parseZebraMetrics pieces.flatten := by
  have hgo := (feed_goes_iff _).2 h
  have hread : Lines.readChunks '\n' readLine allTargetsFilled {} [] pieces = _ :=
    Lines.readChunks_of_never List.not_mem_nil hgo
  unfold streamed
  rw [hread, parse_eq, lines, Lines.lines, readings_append, List.foldl_append, List.nil_append,
    foldl_readLine]
  dsimp only
  by_cases hnil : Lines.unfinished '\n' pieces.flatten = []
  · rw [if_neg (not_not.2 hnil), if_pos hnil]
    rfl
  · rw [if_pos hnil, if_neg hnil, parseLine_eq_foldl]
    rfl

/-! ## Where the reader stops -/

theorem flatten_cut (before : List (List Char)) (piece : List Char) (after : List (List Char)) :
    (before ++ piece :: after).flatten = before.flatten ++ piece ++ after.flatten := by
  rw [List.flatten_append, List.flatten_cons, List.append_assoc]

/-- The first lines of the body with a reading for every target are `read`, the others `unread`;
    `buffer` is the piece in which the last of `read` ends, with the line that was carried over in
    front. -/
structure Stop (pieces : List (List Char)) (read unread : List (List Char)) (buffer : List Char) :
    Prop where
  body : lines pieces.flatten = read ++ unread
  filled : Filled (readings read)
  first : ¬ Filled (readings read.dropLast)
  piece : ∃ before piece after, pieces = before ++ piece :: after ∧
    (Lines.terminated '\n' before.flatten).length < read.length ∧
    read.length ≤ (Lines.terminated '\n' (before.flatten ++ piece)).length ∧
    buffer = Lines.unfinished '\n' before.flatten ++ piece

theorem lines_append (text more : List Char) :
    lines (text ++ more) = (Lines.terminated '\n' text).map (Lines.chomp '\r')
      ++ lines (Lines.unfinished '\n' text ++ more) := by
  unfold lines Lines.lines
  rw [Lines.terminated_append text, Lines.unfinished_append text, List.map_append,
    List.append_assoc]

/-- A body that has a reading for every target in a terminated line stops the reader. -/
theorem exists_stop {pieces : List (List Char)}
    (h : Filled (said (Lines.terminated '\n' pieces.flatten))) :
    ∃ read unread buffer, Stop pieces read unread buffer := by
  obtain ⟨before, piece, after, rfl, hno, hyes⟩ := Lines.exists_stop ((feed_stops_iff _).2 h)
  obtain ⟨pre, l, post, hcut, hpre, hl⟩ := Lines.exists_first hyes
  have hfilled : Filled (said (pre ++ [l])) := by
    rw [← allTargetsFilled_iff, ← foldl_readLine, List.foldl_append]
    exact hl
  refine ⟨(pre ++ [l]).map (Lines.chomp '\r'),
    post.map (Lines.chomp '\r')
      ++ lines (Lines.unfinished '\n' (before.flatten ++ piece) ++ after.flatten),
    _, ?_, hfilled, ?_, before, piece, after, rfl, ?_, ?_, rfl⟩
  · have hline : pre ++ l :: post = (pre ++ [l]) ++ post := by
      rw [List.append_assoc, List.singleton_append]
    rw [flatten_cut, lines_append (before.flatten ++ piece), hcut, hline, List.map_append,
      List.append_assoc]
  · rw [List.map_append, List.map_singleton, List.dropLast_concat]
    exact (feed_goes_iff pre).1 hpre
  · -- the lines before this piece do not fill the reader
    rw [List.length_map, ← Nat.not_le]
    intro hle
    have hline : pre ++ [l] <+: pre ++ l :: post :=
      ⟨post, by rw [List.append_assoc, List.singleton_append]⟩
    have hbefore : Lines.terminated '\n' before.flatten <+: pre ++ l :: post :=
      hcut ▸ Lines.terminated_prefix_append before.flatten piece
    have hsome : pre ++ [l] <+: Lines.terminated '\n' before.flatten :=
      List.prefix_of_prefix_length_le hline hbefore hle
    obtain ⟨more, hmore⟩ := hsome
    rw [feed_goes_iff, ← hmore, said_append] at hno
    exact hno (hfilled.append _)
  · rw [List.length_map, hcut, List.length_append, List.length_append, List.length_cons]
    simp

/-- The last line read ends in the piece. -/
theorem Stop.ends {before : List (List Char)} {piece : List Char} {after : List (List Char)}
    {read unread : List (List Char)} {buffer : List Char}
    (h : Stop (before ++ piece :: after) read unread buffer)
    (hin : read.length ≤ (Lines.terminated '\n' (before.flatten ++ piece)).length) :
    ∃ pre l post, Lines.terminated '\n' (before.flatten ++ piece) = pre ++ l :: post ∧
      read = (pre ++ [l]).map (Lines.chomp '\r') := by
  have hbody := h.body
  rw [flatten_cut, lines_append (before.flatten ++ piece)] at hbody
  generalize Lines.terminated '\n' (before.flatten ++ piece) = ended at hin hbody ⊢
  have hread : read = (ended.take read.length).map (Lines.chomp '\r') := by
    have htake := congrArg (List.take read.length) hbody
    rw [List.take_left, List.take_append_of_le_length (by rw [List.length_map]; exact hin)] at htake
    rw [List.map_take, htake]
  rcases List.eq_nil_or_concat (ended.take read.length) with hnil | ⟨pre, l, hconcat⟩
  · -- no line fills the targets
    rw [hnil, List.map_nil] at hread
    exact absurd rfl (hread ▸ h.filled).height
  · rw [List.concat_eq_append] at hconcat
    refine ⟨pre, l, ended.drop read.length, ?_, ?_⟩
    · calc ended = ended.take read.length ++ ended.drop read.length :=
          (List.take_append_drop read.length ended).symm
      _ = pre ++ l :: ended.drop read.length := by
          rw [hconcat, List.append_assoc, List.singleton_append]
    · rw [← hconcat, ← hread]

/-- **After a stop** the reader holds the lines read, and the text left over as one line. -/
theorem streamed_of_stop {pieces read unread : List (List Char)} {buffer : List Char}
    (h : Stop pieces read unread buffer) :
    streamed pieces = (readings read ++ readings [buffer]).foldl record {} := by
  obtain ⟨before, piece, after, rfl, hafter, hin, rfl⟩ := h.piece
  obtain ⟨pre, l, post, hcut, rfl⟩ := h.ends hin
  have hfilled : Filled (said (pre ++ [l])) := h.filled
  have hpre : ¬ Filled (said pre) := by
    have hfirst := h.first
    rw [List.map_append, List.map_singleton, List.dropLast_concat] at hfirst
    exact hfirst
  have hbefore : Lines.terminated '\n' before.flatten <+: pre ++ l :: post :=
    hcut ▸ Lines.terminated_prefix_append before.flatten piece
  have hearlier : Lines.terminated '\n' before.flatten <+: pre := by
    rw [List.length_map, List.length_append, List.length_singleton] at hafter
    exact List.prefix_of_prefix_length_le hbefore (List.prefix_append _ _) (by omega)
  have hgo : ¬ Filled (said (Lines.terminated '\n' before.flatten)) := by
    obtain ⟨more, rfl⟩ := hearlier
    rw [said_append] at hpre
    exact fun hfull => hpre (hfull.append _)
  have hline : readLine (pre.foldl readLine {}) l = (said (pre ++ [l])).foldl record {} := by
    rw [← foldl_readLine, List.foldl_append]
    rfl
  have hunfilled : allTargetsFilled (pre.foldl readLine {}) = false := by
    rw [← Bool.not_eq_true, foldl_readLine, allTargetsFilled_iff]
    exact hpre
  have hlast : allTargetsFilled (readLine (pre.foldl readLine {}) l) = true := by
    rw [hline, allTargetsFilled_iff]
    exact hfilled
  have hstops : Lines.feed readLine allTargetsFilled {} (Lines.terminated '\n' (before.flatten ++ piece))
      = (readLine (pre.foldl readLine {}) l, true) := by
    rw [hcut, Lines.feed_of_first readLine_filled rfl hunfilled hlast]
  have hread : Lines.readChunks '\n' readLine allTargetsFilled {} [] (before ++ piece :: after) = _ :=
    Lines.readChunks_of_stop List.not_mem_nil after ((feed_goes_iff _).2 hgo)
      (congrArg Prod.snd hstops)
  rw [List.nil_append, hstops] at hread
  have hne : Lines.unfinished '\n' before.flatten ++ piece ≠ [] := by
    intro hnil
    rw [Lines.terminated_append, hnil, List.length_append] at hin
    have hzero : (Lines.terminated '\n' ([] : List Char)).length = 0 := rfl
    omega
  unfold streamed
  rw [hread, if_pos hne, parseLine_eq_foldl, hline, List.foldl_append]
  rfl

/-- A gauge in the line that was carried over has the value of this line again, whatever came after
    it in the same piece. -/
theorem gauge_set_back {pieces read unread : List (List Char)} {line more : List Char} {g : Gauge}
    {v : UInt64} (h : Stop pieces read unread (line ++ '\n' :: more))
    (hline : readingOf line = some (.gauge g v)) : (streamed pieces).gauge g = some v := by
  have hbuffer : readings [line ++ '\n' :: more] = [.gauge g v] := by
    unfold readings
    rw [List.filterMap_cons, readingOf_gauge_append hline more]
    rfl
  rw [streamed_of_stop h, hbuffer, List.foldl_append, List.foldl_cons, List.foldl_nil, record_gauge,
    Reading.gaugeValue, if_pos rfl, Option.some_or]

/-! ## What is missed -/

/-- The last of the values read and unread is the one that was left over, or, when none was, the
    last one read. -/
def Stands {α : Type} (read unread : List α) : Option α → Prop
  | none => ∀ v ∈ unread.getLast?, read.getLast? = some v
  | some v => (read ++ unread).getLast? = some v

theorem stands_iff {α : Type} (read unread : List α) (leftOver : Option α) :
    Stands read unread leftOver
      ↔ (read ++ unread).getLast? = (read ++ leftOver.toList).getLast? := by
  cases leftOver with
  | none =>
    rw [Option.toList_none, List.append_nil, List.getLast?_append]
    unfold Stands
    cases unread.getLast? with
    | none => simp
    | some v => simp [eq_comm]
  | some v => rw [Option.toList_some, List.getLast?_concat, Stands]

/-- What the text left over says as one line makes up for the lines unread: a gauge or a version it
    gives is the last one, a count it gives is what they add up to modulo `2^64`; and they neither
    change a gauge or the version nor add to a counter that it does not give. -/
structure NothingMissed (read unread : List Reading) (leftOver : Option Reading) : Prop where
  gauge : ∀ g, Stands (gaugeValues g read) (gaugeValues g unread)
    (leftOver.bind (Reading.gaugeValue g))
  count : ∀ c, (counts c unread).sum = (leftOver.bind (Reading.countValue c)).getD 0
  version : Stands (versions read) (versions unread) (leftOver.bind Reading.versionValue)

/-- Wherever the reader stops, nothing is missed. -/
def Harmless (pieces : List (List Char)) : Prop :=
  ∀ read unread buffer, Stop pieces read unread buffer →
    NothingMissed (readings read) (readings unread) (readingOf buffer)

theorem counter_after {rs : List Reading} (h : Filled rs) (rs' : List Reading) (c : Counter) :
    ((rs ++ rs').foldl record {}).counter c
      = some (0 + ((counts c rs).sum + (counts c rs').sum)) := by
  have hnone : ({} : ZebraMetrics).counter c = none := by cases c <;> rfl
  rw [foldl_counter, if_neg ((h.append rs').count c), hnone, counts, List.filterMap_append,
    List.sum_append]
  rfl

theorem filterMap_leftOver {α : Type} (f : Reading → Option α) (leftOver : Option Reading) :
    leftOver.toList.filterMap f = (leftOver.bind f).toList := by
  cases leftOver with
  | none => rfl
  | some r =>
    rw [Option.toList_some, filterMap_toList, List.filterMap_nil, List.append_nil,
      Option.bind_some]

theorem readings_singleton (line : List Char) : readings [line] = (readingOf line).toList := by
  unfold readings
  rw [filterMap_toList, List.filterMap_nil, List.append_nil]

theorem sum_counts_leftOver (c : Counter) (leftOver : Option Reading) :
    (counts c leftOver.toList).sum = (leftOver.bind (Reading.countValue c)).getD 0 := by
  rw [counts, filterMap_leftOver]
  cases leftOver.bind (Reading.countValue c) <;> simp

theorem fields_eq_iff_nothingMissed {read : List Reading} (h : Filled read)
    (unread : List Reading) (leftOver : Option Reading) :
    ((read ++ leftOver.toList).foldl record {}).fields = ((read ++ unread).foldl record {}).fields
      ↔ NothingMissed read unread leftOver := by
  have hheight : ∀ rs, ((read ++ rs).foldl record {}).verifiedHeight = (heights read).head? := by
    intro rs
    obtain ⟨v, vs, hcons⟩ := List.exists_cons_of_ne_nil h.height
    have happend : heights (read ++ rs) = heights read ++ heights rs := List.filterMap_append
    rw [foldl_height, Option.none_or, happend, hcons]
    rfl
  have hgauge : ∀ rs g, ((read ++ rs).foldl record {}).gauge g
      = (gaugeValues g read ++ gaugeValues g rs).getLast? := by
    intro rs g
    have hnone : ({} : ZebraMetrics).gauge g = none := by cases g <;> rfl
    rw [foldl_gauge, hnone, Option.or_none, gaugeValues, List.filterMap_append]
    rfl
  have hversion : ∀ rs, ((read ++ rs).foldl record {}).zebraVersion
      = (versions read ++ versions rs).getLast? := by
    intro rs
    rw [foldl_version, Option.or_none, versions, List.filterMap_append]
    rfl
  have hgauges : ∀ g, Stands (gaugeValues g read) (gaugeValues g unread)
      (leftOver.bind (Reading.gaugeValue g)) ↔ ((read ++ unread).foldl record {}).gauge g
        = ((read ++ leftOver.toList).foldl record {}).gauge g := by
    intro g
    rw [hgauge, hgauge, stands_iff, ← filterMap_leftOver]
    rfl
  have hversions : Stands (versions read) (versions unread) (leftOver.bind Reading.versionValue) ↔
      ((read ++ unread).foldl record {}).zebraVersion
        = ((read ++ leftOver.toList).foldl record {}).zebraVersion := by
    rw [hversion, hversion, stands_iff, ← filterMap_leftOver]
    rfl
  rw [ZebraMetrics.fields_eq_iff, hheight, hheight]
  constructor
  · rintro ⟨-, hg, hc, hv⟩
    refine ⟨fun g => (hgauges g).2 (hg g).symm, fun c => ?_, hversions.2 hv.symm⟩
    have hsum := hc c
    rw [counter_after h, counter_after h, Option.some.injEq, UInt64.add_right_inj,
      UInt64.add_right_inj, sum_counts_leftOver] at hsum
    exact hsum.symm
  · intro hmiss
    refine ⟨rfl, fun g => ((hgauges g).1 (hmiss.gauge g)).symm, fun c => ?_,
      (hversions.1 hmiss.version).symm⟩
    rw [counter_after h, counter_after h, sum_counts_leftOver, hmiss.count c]

theorem streamed_fields_iff (pieces : List (List Char)) :
    (streamed pieces).fields = (parseZebraMetrics pieces.flatten).fields ↔ Harmless pieces := by
  constructor
  · intro heq read unread buffer hstop
    rw [streamed_of_stop hstop, parse_eq, hstop.body, readings_append, readings_singleton] at heq
    exact (fields_eq_iff_nothingMissed hstop.filled _ _).1 heq
  · intro hharmless
    by_cases hfull : Filled (said (Lines.terminated '\n' pieces.flatten))
    · obtain ⟨read, unread, buffer, hstop⟩ := exists_stop hfull
      rw [streamed_of_stop hstop, parse_eq, hstop.body, readings_append, readings_singleton]
      exact (fields_eq_iff_nothingMissed hstop.filled _ _).2 (hharmless read unread buffer hstop)
    · rw [streamed_of_never hfull]

/-- **A body that arrives in chunks is read like the whole body** exactly if nothing is missed
    where the reader stops. -/
theorem streamed_agrees_iff (metricsUrl : String) (elapsedMs : UInt64) {code : ℕ}
    (hcode : 200 ≤ code ∧ code < 300) {body : List UInt8} {chunks : List (List UInt8)}
    (hcut : chunks.flatten = body) (hascii : ∀ b ∈ body, b < 128)
    (hcap : body.length ≤ maxScrapeBytes) :
    (fetchZebraMetrics metricsUrl elapsedMs (.status code (chunks.map .ok))).fields
        = (parseZebraMetrics (fromUtf8Lossy body)).fields
      ↔ Harmless (chunks.map fromUtf8Lossy) := by
  subst hcut
  rw [fetch_fields metricsUrl elapsedMs hcode hcap, ← fromUtf8Lossy_flatten hascii]
  exact streamed_fields_iff (chunks.map fromUtf8Lossy)

def utf8Bytes (s : String) : List UInt8 := s.toUTF8.data.toList

/-- A scrape with the build before the errors. -/
def buildFirst : List UInt8 :=
  ["# TYPE sync_estimated_distance_to_tip gauge\n",
   "sync_estimated_distance_to_tip 2\n",
   "zcash_chain_verified_block_height 3357913\n",
   "sync_estimated_network_tip_height 3357915\n",
   "rpc_active_requests 4\n",
   "gossip_queued_block_count 1\n",
   "zcash_net_peers 132\n",
   "zcash_mempool_size_transactions 8\n",
   "rpc_requests_total\x7bmethod=\"getblocktemplate\",status=\"success\"\x7d 127\n",
   "zebrad_build_info\x7bversion=\"4.3.1\"\x7d 1\n",
   "rpc_errors_total\x7bmethod=\"getblocktemplate\",error_code=\"0\"\x7d 30\n",
   "rpc_errors_total\x7bmethod=\"getblocktemplate\",error_code=\"-10\"\x7d 24\n"].flatMap utf8Bytes

theorem buildFirst_bytes : (∀ b ∈ buildFirst, b < 128) ∧ buildFirst.length ≤ maxScrapeBytes := by
  decide +kernel

theorem streamed_agrees_iff_buildFirst :
    (∀ b ∈ buildFirst, b < 128) ∧ buildFirst.length ≤ maxScrapeBytes ∧
      ((fetchZebraMetrics "http://localhost:9999/metrics" 16
          (.status 200 ([buildFirst].map .ok))).fields
          = (parseZebraMetrics (fromUtf8Lossy buildFirst)).fields
        ↔ Harmless ([buildFirst].map fromUtf8Lossy)) := by
  obtain ⟨hascii, hcap⟩ := buildFirst_bytes
  have hcode : 200 ≤ 200 ∧ 200 < 300 := by decide
  exact ⟨hascii, hcap, streamed_agrees_iff "http://localhost:9999/metrics" 16 hcode
    List.flatten_singleton hascii hcap⟩

/-- In one chunk the second line of errors is lost. -/
theorem errors_lost :
    (∀ b ∈ buildFirst, b < 128) ∧ buildFirst.length ≤ maxScrapeBytes ∧
      (fetchZebraMetrics "http://localhost:9999/metrics" 16
        (.status 200 ([buildFirst].map .ok))).fields.gbtErrorsTotal = some 30 ∧
      (parseZebraMetrics (fromUtf8Lossy buildFirst)).fields.gbtErrorsTotal = some 54 :=
  ⟨buildFirst_bytes.1, buildFirst_bytes.2, by decide +kernel⟩

end PoolApi

end ZcashMiningPool
