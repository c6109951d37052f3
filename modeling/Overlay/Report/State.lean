import Overlay.Node.Config
import Overlay.Report.Message

/-!
# Reports of settings and states

Settings, agreements, sessions, and the records of discovery.  What depends on the moment is reported for a
given moment.
-/

namespace Overlay

/-! ## Settings -/

instance : Reportable ArmConfig :=
  ⟨fun c => .record [("enabled", report c.enabled), ("expire_after", report c.expireAfter),
    ("retry_interval", report c.retryInterval), ("max_agreements", report c.maxAgreements),
    ("max_sessions", report c.maxSessions), ("session_expire_after", report c.sessionExpireAfter),
    ("pfs_enabled", report c.forwardSecrecy), ("agreement_retention", report c.retention)]⟩

instance : Reportable DiscoveryConfig :=
  ⟨fun c => .record [("network_id", report c.networkId), ("hello_interval", report c.helloInterval),
    ("hello_timeout", report c.helloTimeout), ("max_time_offset", report c.maxTimeOffset),
    ("path_idle_time", report c.pathIdleTime), ("max_peers", report c.maxPeers),
    ("hop_limit", report c.hopLimit), ("unite_min_interval", report c.uniteMinInterval),
    ("super_peers", report (c.superPeers.entries.mergeSort fun a b => a.1.rank ≤ b.1.rank))]⟩

instance : Reportable FallbackConfig :=
  ⟨fun c => .record [("enabled", report c.enabled), ("timeout", report c.timeout),
    ("super_peer_tcp_address", report c.superPeerAddress),
    ("server_bind_addr", report c.serverAddress)]⟩

instance : Reportable NodeConfig :=
  ⟨fun c => .record [("bind_addr", report c.bindAddr), ("arm", report c.arm),
    ("discovery", report c.discovery), ("tcp_fallback", report c.fallback),
    ("super_peer_mode", report c.superPeerMode)]⟩

/-! ## Conversations -/

def Agreement.reportAt (now : Nat) (a : Agreement) : Report :=
  .record [("public", report a.keyPair.publicKey), ("secret", report a.keyPair.secretKey),
    ("recipient", report a.recipient), ("id", report a.id), ("rx", report (a.pair.map (·.rx))),
    ("tx", report (a.pair.map (·.tx))), ("stale_at", report a.staleAt),
    ("initialized", report a.isInitialized), ("stale", report (a.isStale now)),
    ("renewable", report (a.isRenewable now))]

instance : Reportable EncryptionState where
  report
    | .longTime => .text "LongTime"
    | .forwardSecrecy => .text "Pfs"

def Report.check : Except SessionFault Unit → Report
  | .ok () => .nothing
  | .error e => .text e.message

def Session.reportAt (now : Nat) (s : Session) : Report :=
  .record [("long_time_id", report s.longTimeId), ("long_time_rx", report s.longTimePair.rx),
    ("long_time_tx", report s.longTimePair.tx), ("active", report (s.active.map (·.reportAt now))),
    ("inactive", report (s.inactive.map (·.reportAt now))),
    ("initialized", report ((s.initialized.live now).map (·.1))),
    ("initialized_len", report s.initialized.size),
    ("last_key_exchange_at", report s.lastKeyExchangeAt),
    ("last_renew_attempt_at", report s.lastRenewAttemptAt), ("state", report s.state),
    ("invariants", Report.check (s.check now))]

/-! ## Discovery -/

instance : Reportable Latency :=
  ⟨fun l => .record [("latency_ms", report l.millis?), ("srtt", report l.averageTime),
    ("rttvar", report l.deviationTime), ("rto", report l.timeout), ("initialized", report l.isKnown),
    ("samples", report l.samples)]⟩

instance : Reportable SuperPeer :=
  ⟨fun p => .record [("addr", report p.addr), ("latency_ms", report p.latency.millis?),
    ("last_ack_at", report p.lastAckAt), ("rtt", report p.latency)]⟩

instance : Reportable TraversingPeer :=
  ⟨fun p => .record [("addr", report p.addr), ("confirmed", report p.isConfirmed),
    ("candidates", report p.candidates)]⟩

end Overlay
