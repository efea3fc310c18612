import AuditLibstdcxx.Theory.Bounds
import AuditLibstdcxx.Theory.BuildRpath
import AuditLibstdcxx.Theory.Clamping
import AuditLibstdcxx.Theory.FindHighest
import AuditLibstdcxx.Theory.PyOverlap
import AuditLibstdcxx.Theory.PyDeployment
import AuditLibstdcxx.Theory.Request
import AuditLibstdcxx.Theory.Resources
import AuditLibstdcxx.Theory.Search
import AuditLibstdcxx.Theory.Termination
import AuditLibstdcxx.Theory.PyAgreement
import AuditLibstdcxx.Theory.Shipping
