import EbpfUpf.Framework.Amid
import EbpfUpf.Framework.Bytes
import EbpfUpf.Framework.Checksum
import EbpfUpf.Framework.Faults
import EbpfUpf.Framework.InsertOnce
import EbpfUpf.Framework.Layout
import EbpfUpf.Framework.Lock
import EbpfUpf.Framework.Loops
import EbpfUpf.Framework.Prog
import EbpfUpf.Framework.Stores
import EbpfUpf.Framework.System
import EbpfUpf.Framework.Text
import EbpfUpf.Framework.TokenBucket
import EbpfUpf.Framework.Typestate
import EbpfUpf.Framework.Versioned
import EbpfUpf.Impl.Agent
import EbpfUpf.Impl.Bench
import EbpfUpf.Impl.Blast
import EbpfUpf.Impl.Bpf
import EbpfUpf.Impl.Capture
import EbpfUpf.Impl.Contention
import EbpfUpf.Impl.Generators
import EbpfUpf.Impl.Htab
import EbpfUpf.Impl.Jobs
import EbpfUpf.Impl.Live
import EbpfUpf.Impl.Maps
import EbpfUpf.Impl.Measure
import EbpfUpf.Impl.Pins
import EbpfUpf.Impl.Processes
import EbpfUpf.Impl.Report
import EbpfUpf.Impl.Scrape
import EbpfUpf.Impl.System
import EbpfUpf.Impl.Tc
import EbpfUpf.Impl.TcEgress
import EbpfUpf.Impl.Testbed
import EbpfUpf.Impl.Updates
import EbpfUpf.Impl.Visits
import EbpfUpf.Impl.Writers
import EbpfUpf.Impl.Xdp
import EbpfUpf.Proof.Accounting
import EbpfUpf.Proof.Agent
import EbpfUpf.Proof.Agreement
import EbpfUpf.Proof.Attempts
import EbpfUpf.Proof.Bench
import EbpfUpf.Proof.Bootstrap
import EbpfUpf.Proof.Bucket
import EbpfUpf.Proof.Bundle
import EbpfUpf.Proof.Capture
import EbpfUpf.Proof.Checksum
import EbpfUpf.Proof.Commit
import EbpfUpf.Proof.Contention
import EbpfUpf.Proof.Course
import EbpfUpf.Proof.Downlink
import EbpfUpf.Proof.Downtime
import EbpfUpf.Proof.Egress
import EbpfUpf.Proof.Enforce
import EbpfUpf.Proof.Events
import EbpfUpf.Proof.Far
import EbpfUpf.Proof.Generations
import EbpfUpf.Proof.Generators
import EbpfUpf.Proof.GtpHeader
import EbpfUpf.Proof.Integrity
import EbpfUpf.Proof.Intent
import EbpfUpf.Proof.Jobs
import EbpfUpf.Proof.Kernel
import EbpfUpf.Proof.Ledger
import EbpfUpf.Proof.Maps
import EbpfUpf.Proof.Measure
import EbpfUpf.Proof.Meter
import EbpfUpf.Proof.Parser
import EbpfUpf.Proof.Pins
import EbpfUpf.Proof.Processes
import EbpfUpf.Proof.Rate
import EbpfUpf.Proof.Reader
import EbpfUpf.Proof.Refill
import EbpfUpf.Proof.Report
import EbpfUpf.Proof.RoundTrip
import EbpfUpf.Proof.Scrape
import EbpfUpf.Proof.Sessions
import EbpfUpf.Proof.Startup
import EbpfUpf.Proof.System
import EbpfUpf.Proof.Testbed
import EbpfUpf.Proof.Toggle
import EbpfUpf.Proof.Torn
import EbpfUpf.Proof.Uplink
import EbpfUpf.Proof.Usage
import EbpfUpf.Proof.Verifier
import EbpfUpf.Proof.Visits
import EbpfUpf.Proof.Volume
import EbpfUpf.Proof.WellFormed
import EbpfUpf.Proof.Writers
import EbpfUpf.Spec.Accounting
import EbpfUpf.Spec.Attempts
import EbpfUpf.Spec.Bench
import EbpfUpf.Spec.Bootstrap
import EbpfUpf.Spec.Capture
import EbpfUpf.Spec.Contention
import EbpfUpf.Spec.Control
import EbpfUpf.Spec.Course
import EbpfUpf.Spec.Downlink
import EbpfUpf.Spec.Events
import EbpfUpf.Spec.Fate
import EbpfUpf.Spec.Generations
import EbpfUpf.Spec.Generators
import EbpfUpf.Spec.Gpdu
import EbpfUpf.Spec.GtpHeader
import EbpfUpf.Spec.Intent
import EbpfUpf.Spec.Ledger
import EbpfUpf.Spec.Measure
import EbpfUpf.Spec.Meter
import EbpfUpf.Spec.Pins
import EbpfUpf.Spec.Qer
import EbpfUpf.Spec.Rules
import EbpfUpf.Spec.Scrape
import EbpfUpf.Spec.Startup
import EbpfUpf.Spec.Testbed
import EbpfUpf.Spec.Toggle
import EbpfUpf.Spec.Tunnel
import EbpfUpf.Spec.Usage
import EbpfUpf.Spec.Verifier
import EbpfUpf.Spec.Volume
import EbpfUpf.Spec.Writers
