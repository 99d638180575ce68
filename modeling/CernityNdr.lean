import CernityNdr.Asset.Timelines
import CernityNdr.Asset.Spans
import CernityNdr.Asset.Records
import CernityNdr.Asset.Versions
import CernityNdr.Finding.Tenants
import CernityNdr.Finding.Revisions
import CernityNdr.Finding.Evidence
import CernityNdr.Finding.Recovery
import CernityNdr.Forwarder.LedgerFailures
import CernityNdr.Forwarder.ReplaySafety
import CernityNdr.Forwarder.Receipts
import CernityNdr.Forwarder.DocumentIds
import CernityNdr.Intel.Atomicity
import CernityNdr.Intel.Independence
import CernityNdr.Window.Sharded
import CernityNdr.Window.CappedFields
import CernityNdr.Window.Retention
import CernityNdr.Detectors.Identity
import CernityNdr.Detectors.RareDestinations
import CernityNdr.Detectors.Icmp
import CernityNdr.Detectors.Periodicity
import CernityNdr.Artifact.Namespaces
import CernityNdr.Capture.Collisions
import CernityNdr.Capture.PcapIngest
import CernityNdr.Artifact.Gate
import CernityNdr.Anomaly.Backends
import CernityNdr.Feedback.Handoff
import CernityNdr.Hunt.Progress
import CernityNdr.Ingest.Poison
import CernityNdr.Enrichment.ZeekLogs
import CernityNdr.Sensor.EveRates
import CernityNdr.Detectors.NdpiFindings
import CernityNdr.Anomaly.Features
import CernityNdr.Detectors.Ja4Novelty
import CernityNdr.Sensor.Inventory
import CernityNdr.Benchmark.Unsettled
import CernityNdr.Intel.FeedCredentials
import CernityNdr.Hunt.Agreement
import CernityNdr.Investigation.Identity
import CernityNdr.Capture.Jobs
import CernityNdr.Correlation.Service
import CernityNdr.Detections.Lifecycle
import CernityNdr.Intel.Alerts
import CernityNdr.Yara.Rules
import CernityNdr.Case.Emissions
import CernityNdr.Feedback.Deliverable
