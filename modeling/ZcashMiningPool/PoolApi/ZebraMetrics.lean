import ZcashMiningPool.Library.Lines
import ZcashMiningPool.Library.Text

/-!
# The metrics of the node

`pool-api/src/zebra_metrics.rs`: a scrape of the node's metrics, for the page that shows whether
the node is healthy.

* `ZebraMetrics` — what the page shows; `fields` — without the data about the scrape itself.
* `parseLine` — one line, merged into the metrics.
* `parseZebraMetrics` — a whole body.
* `readBody`, `fetchZebraMetrics` — a body that arrives in chunks.
-/

set_option autoImplicit false

namespace ZcashMiningPool

namespace PoolApi

open Text

structure ZebraMetrics where
  verifiedHeight : Option UInt64 := none
  networkTipHeight : Option UInt64 := none
  distanceToTip : Option UInt64 := none
  rpcActiveRequests : Option UInt64 := none
  gbtRequestsTotal : Option UInt64 := none
  gbtErrorsTotal : Option UInt64 := none
  verifiedBlocksTotal : Option UInt64 := none
  gossipQueuedBlocks : Option UInt64 := none
  peers : Option UInt64 := none
  mempoolTxs : Option UInt64 := none
  mempoolBytes : Option UInt64 := none
  zebraVersion : Option String := none
  scrapeDurationMs : Option UInt64 := none
  scrapeError : Option String := none
  deriving DecidableEq, Repr

/-- The metrics that an unlabelled line sets whatever they were. -/
inductive Gauge where
  | networkTipHeight
  | distanceToTip
  | rpcActiveRequests
  | verifiedBlocksTotal
  | gossipQueuedBlocks
  | peers
  | mempoolTxs
  | mempoolBytes
  deriving DecidableEq, Repr

/-- The metrics that are summed over the labels. -/
inductive Counter where
  | gbtRequestsTotal
  | gbtErrorsTotal
  deriving DecidableEq, Repr

namespace ZebraMetrics

def gauge (m : ZebraMetrics) : Gauge → Option UInt64
  | .networkTipHeight => m.networkTipHeight
  | .distanceToTip => m.distanceToTip
  | .rpcActiveRequests => m.rpcActiveRequests
  | .verifiedBlocksTotal => m.verifiedBlocksTotal
  | .gossipQueuedBlocks => m.gossipQueuedBlocks
  | .peers => m.peers
  | .mempoolTxs => m.mempoolTxs
  | .mempoolBytes => m.mempoolBytes

def setGauge (m : ZebraMetrics) (v : UInt64) : Gauge → ZebraMetrics
  | .networkTipHeight => { m with networkTipHeight := some v }
  | .distanceToTip => { m with distanceToTip := some v }
  | .rpcActiveRequests => { m with rpcActiveRequests := some v }
  | .verifiedBlocksTotal => { m with verifiedBlocksTotal := some v }
  | .gossipQueuedBlocks => { m with gossipQueuedBlocks := some v }
  | .peers => { m with peers := some v }
  | .mempoolTxs => { m with mempoolTxs := some v }
  | .mempoolBytes => { m with mempoolBytes := some v }

def counter (m : ZebraMetrics) : Counter → Option UInt64
  | .gbtRequestsTotal => m.gbtRequestsTotal
  | .gbtErrorsTotal => m.gbtErrorsTotal

/-- `u64` addition wraps. -/
def addCounter (m : ZebraMetrics) (v : UInt64) : Counter → ZebraMetrics
  | .gbtRequestsTotal => { m with gbtRequestsTotal := some (m.gbtRequestsTotal.getD 0 + v) }
  | .gbtErrorsTotal => { m with gbtErrorsTotal := some (m.gbtErrorsTotal.getD 0 + v) }

def fields (m : ZebraMetrics) : ZebraMetrics :=
  { m with scrapeDurationMs := none, scrapeError := none }

/-- Equal fields, metric by metric. -/
theorem fields_eq_iff (m m' : ZebraMetrics) :
    m.fields = m'.fields ↔ m.verifiedHeight = m'.verifiedHeight ∧ (∀ g, m.gauge g = m'.gauge g) ∧
      (∀ c, m.counter c = m'.counter c) ∧ m.zebraVersion = m'.zebraVersion := by
  constructor
  · intro h
    unfold fields at h
    rw [ZebraMetrics.mk.injEq] at h
    obtain ⟨hh, h1, h2, h3, hc1, hc2, h4, h5, h6, h7, h8, hv, -⟩ := h
    refine ⟨hh, fun g => ?_, fun c => ?_, hv⟩
    · cases g <;> assumption
    · cases c <;> assumption
  · rintro ⟨hh, hg, hc, hv⟩
    unfold fields
    rw [ZebraMetrics.mk.injEq]
    exact ⟨hh, hg .networkTipHeight, hg .distanceToTip, hg .rpcActiveRequests, hc .gbtRequestsTotal,
      hc .gbtErrorsTotal, hg .verifiedBlocksTotal, hg .gossipQueuedBlocks, hg .peers,
      hg .mempoolTxs, hg .mempoolBytes, hv, rfl, rfl⟩

end ZebraMetrics

/-! ## One line -/

/-- `metric_name 12345`. -/
def unlabeledU64 (line : List Char) (name : String) : Option UInt64 := do
  let rest ← stripPrefix name.toList line
  let rest ← stripPrefix [' '] rest
  parseU64 (← firstWord rest)

def trailingU64 (line : List Char) : Option UInt64 := do
  let (_, val) ← rsplitOnce ' ' line
  parseU64 val

/-- The content of a label between the quotes. -/
def extractLabel (line : List Char) (key : String) : Option (List Char) := do
  let labelsStart ← line.idxOf? '\x7b'
  let labelsEnd ← line.idxOf? '\x7d'
  if labelsEnd ≤ labelsStart then none
  else
    let labels := (line.take labelsEnd).drop (labelsStart + 1)
    (splitAt ',' labels).findSome? (fun pair =>
      match splitOnce '=' (trim pair) with
      | some (k, v) => if k = key.toList then some (trimMatches '\x22' v) else none
      | none => none)

/-- The height under its old name or under its new one. -/
def verifiedHeightOf (line : List Char) : Option UInt64 :=
  match unlabeledU64 line "zcash_chain_verified_block_height" with
  | some v => some v
  | none => unlabeledU64 line "state_memory_best_committed_block_height"

/-- The gauges by name, in the order in which they are tried. -/
def gauges : List (String × Gauge) :=
  [("sync_estimated_network_tip_height", .networkTipHeight),
   ("sync_estimated_distance_to_tip", .distanceToTip),
   ("rpc_active_requests", .rpcActiveRequests),
   ("zcash_chain_verified_block_total", .verifiedBlocksTotal),
   ("gossip_queued_block_count", .gossipQueuedBlocks),
   ("zcash_net_peers", .peers),
   ("zcash_mempool_size_transactions", .mempoolTxs),
   ("mempool_queued_transactions_total", .mempoolTxs),
   ("zcash_mempool_cost_bytes", .mempoolBytes)]

def gaugeOf (line : List Char) : Option (Gauge × UInt64) :=
  gauges.findSome? (fun entry => (unlabeledU64 line entry.1).map (fun v => (entry.2, v)))

def startsWith (line : List Char) (p : String) : Bool := p.toList.isPrefixOf line

/-- What a labelled line adds: nothing, unless it is about block templates. -/
def getblocktemplateCount (line : List Char) : Option UInt64 :=
  if extractLabel line "method" = some "getblocktemplate".toList then trailingU64 line else none

def parseLine (line : List Char) (m : ZebraMetrics) : ZebraMetrics :=
  if line = [] ∨ startsWith line "#" then m
  else match if m.verifiedHeight = none then verifiedHeightOf line else none with
  | some v => { m with verifiedHeight := some v }
  | none => match gaugeOf line with
    | some (g, v) => m.setGauge v g
    | none =>
      if startsWith line "rpc_requests_total\x7b" then
        match getblocktemplateCount line with
        | some v => m.addCounter v .gbtRequestsTotal
        | none => m
      else if startsWith line "rpc_errors_total\x7b" then
        match getblocktemplateCount line with
        | some v => m.addCounter v .gbtErrorsTotal
        | none => m
      else if startsWith line "zebrad_build_info\x7b" || startsWith line "zakura_build_info\x7b" then
        match extractLabel line "version" with
        | some ver => { m with zebraVersion := some (String.ofList ver) }
        | none => m
      else m

/-! ## The whole body -/

/-- `str::lines`. -/
def lines (body : List Char) : List (List Char) := Lines.lines '\n' '\r' body

def parseZebraMetrics (body : List Char) : ZebraMetrics :=
  (lines body).foldl (fun m line => parseLine line m) {}

/-! ## The body in chunks -/

/-- `verified_blocks_total` and `mempool_bytes` are no targets: later nodes do not emit them. -/
def allTargetsFilled (m : ZebraMetrics) : Bool :=
  m.verifiedHeight.isSome && m.networkTipHeight.isSome && m.distanceToTip.isSome &&
    m.rpcActiveRequests.isSome && m.gbtRequestsTotal.isSome && m.gbtErrorsTotal.isSome &&
    m.gossipQueuedBlocks.isSome && m.peers.isSome && m.mempoolTxs.isSome && m.zebraVersion.isSome

def maxScrapeBytes : ℕ := 400 * 1024 * 1024

/-- The loop over the chunks, and what it leaves over. -/
def readBody (metricsUrl : String) :
    List (Except String (List UInt8)) → ZebraMetrics → List Char → ℕ → ZebraMetrics × List Char
  | [], m, leftover, _ => (m, leftover)
  | .error e :: _, m, leftover, bytesRead =>
    ({ m with scrapeError := some s!"chunk after {bytesRead} bytes from {metricsUrl}: {e}" },
      leftover)
  | .ok chunk :: chunks, m, leftover, bytesRead =>
    let bytesRead := bytesRead + chunk.length
    if maxScrapeBytes < bytesRead then
      ({ m with scrapeError := some (s!"metrics body exceeded {maxScrapeBytes / (1024 * 1024)} " ++
          "MB cap (node-side cardinality leak, see task #17)") }, leftover)
    else
      let leftover := leftover ++ fromUtf8Lossy chunk
      match Lines.rfind '\n' leftover with
      | none => readBody metricsUrl chunks m leftover bytesRead
      | some lastNl =>
        let complete := leftover.take (lastNl + 1)
        let tail := leftover.drop (lastNl + 1)
        let out := Lines.feed (fun m line => parseLine line m) allTargetsFilled m (lines complete)
        -- an early exit keeps all that was left over, with the lines it has parsed
        if out.2 then (out.1, leftover)
        else readBody metricsUrl chunks out.1 tail bytesRead

/-- The answer to a scrape. -/
inductive Response where
  | clientBuild (error : String)
  | send (error : String)
  | status (code : ℕ) (chunks : List (Except String (List UInt8)))

def failed (msg : String) (elapsedMs : UInt64) : ZebraMetrics :=
  { scrapeError := some msg, scrapeDurationMs := some elapsedMs }

def fetchZebraMetrics (metricsUrl : String) (elapsedMs : UInt64) : Response → ZebraMetrics
  | .clientBuild e => failed s!"client build: {e}" elapsedMs
  | .send e => failed s!"request to {metricsUrl}: {e}" elapsedMs
  | .status code chunks =>
    if 200 ≤ code ∧ code < 300 then
      let (m, leftover) := readBody metricsUrl chunks {} [] 0
      let m := if leftover ≠ [] then parseLine leftover m else m
      { m with scrapeDurationMs := some elapsedMs }
    else failed s!"HTTP {code} from {metricsUrl}" elapsedMs

end PoolApi

end ZcashMiningPool
