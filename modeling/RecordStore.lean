import RecordStore.Metadata.History
import RecordStore.Metadata.Quota
import RecordStore.Metadata.Snapshot
import RecordStore.Audit.Tampering
import RecordStore.Service.Lock
import RecordStore.Consensus.Agreement
import RecordStore.Cluster.ReplicaIndex
import RecordStore.Cluster.DeviceLifecycle
import RecordStore.Replication.Detection
import RecordStore.Consensus.LogReads
import RecordStore.Consensus.Inspection
import RecordStore.Consensus.Members
import RecordStore.Replication.RepairScan
import RecordStore.Replication.Retirement
import RecordStore.Cluster.Rejoin
import RecordStore.Cluster.TopologyRead
import RecordStore.Consensus.Voters
import RecordStore.Lifecycle.Prefix
import RecordStore.Lifecycle.Race
import RecordStore.Audit.Inclusion
import RecordStore.Proof.Bundle
import RecordStore.Proof.Arithmetic
import RecordStore.Cluster.TaskFences
import RecordStore.Cluster.Usage
import RecordStore.Cluster.Explain
import RecordStore.Cluster.Rebalance
import RecordStore.Cluster.Numbering
import RecordStore.Metadata.Migration
import RecordStore.S3.SigV4
import RecordStore.Sharing.Share
import RecordStore.Sharing.Probes
import RecordStore.S3.Range
import RecordStore.Sharing.Content
import RecordStore.Core.TrustedProxy
import RecordStore.Events.Delivery
import RecordStore.Auth.Accounts
