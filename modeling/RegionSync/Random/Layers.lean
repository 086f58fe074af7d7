/-!
Layers of the standard normal density: its graph is covered by 256 layers of equal area. The tables
hold the right edge of each layer and the density there, in units of `10 ^ -18`.
-/

namespace RegionSync.Random

/-- Where the lowest layer ends and the tail begins. -/
def tailStart : Nat := 3654152885361008796

/-- Right edges of the layers, the widest first. -/
def layerEdges : Array Nat := #[
  3910757959537090045, 3654152885361008796, 3449278298560964462, 3320244733839166074,
  3224575052047029100, 3147889289517149969, 3083526132001233044, 3027837791768635434,
  2978603279880844834, 2934366867207854224, 2894121053612348060, 2857138730872132548,
  2822877396825325125, 2790921174000785765, 2760944005278822555, 2732685359042827056,
  2705933656121858100, 2680514643284522158, 2656283037575502437, 2633116393630324570,
  2610910518487548515, 2589575986706995181, 2569035452680536569, 2549221550323460761,
  2530075232158516929, 2511544441625342294, 2493583041269680667, 2476149939669143318,
  2459208374333311298, 2442725318198956774, 2426670984935725972, 2411018413899685520,
  2395743119780480601, 2380822795170626005, 2366237056715818632, 2351967227377659952,
  2337996148795031370, 2324308018869623016, 2310888250599850036, 2297723348901329565,
  2284800802722946056, 2272108990226823888, 2259637095172217780, 2247375032945807760,
  2235313384928327984, 2223443340090905718, 2211756642882544366, 2200245546609647995,
  2188902771624720689, 2177721467738641614, 2166695180352645966, 2155817819875063268,
  2145083634046203613, 2134487182844320152, 2124023315687815661, 2113687150684933957,
  2103474055713146829, 2093379631137050279, 2083399693996551783, 2073530263516978778,
  2063767547809956415, 2054107931648864849, 2044547965215732788, 2035084353727808715,
  2025713947862032960, 2016433734904371722, 2007240830558684852, 1998132471356564244,
  1989106007615571325, 1980158896898598364, 1971288697931769640, 1962493064942461896,
  1953769742382734043, 1945116560006753925, 1936531428273758904, 1928012334050718257,
  1919557336591228847, 1911164563769282232, 1902832208548446369, 1894558525668710081,
  1886341828534776388, 1878180486290977669, 1870072921069236838, 1862017605397632281,
  1854013059758148119, 1846057850283119750, 1838150586580728607, 1830289919680666566,
  1822474540091783224, 1814703175964167636, 1806974591348693426, 1799287584547580199,
  1791640986550010028, 1784033659547276329, 1776464495522344977, 1768932414909077933,
  1761436365316706665, 1753975320315455111, 1746548278279492994, 1739154261283669012,
  1731792314050707216, 1724461502945775715, 1717160915015540690, 1709889657069006086,
  1702646854797613907, 1695431651932238548, 1688243209434858727, 1681080704722823338,
  1673943330923760353, 1666830296159286684, 1659740822855789499, 1652674147080648526,
  1645629517902360339, 1638606196773111146, 1631603456932422036, 1624620582830568427,
  1617656869570534228, 1610711622367333673, 1603784156023583041, 1596873794420261339,
  1589979870021648534, 1583101723393471438, 1576238702733332886, 1569390163412534456,
  1562555467528439657, 1555733983466554893, 1548925085471535512, 1542128153226347553,
  1535342571438843118, 1528567729435024614, 1521803020758293101, 1515047842773992404,
  1508301596278571965, 1501563685112706548, 1494833515777718391, 1488110497054654369,
  1481394039625375747, 1474683555695025516, 1467978458615230908, 1461278162507407830,
  1454582081885523293, 1447889631277669675, 1441200224845798017, 1434513276002946425,
  1427828197027290358, 1421144398672323117, 1414461289772464658, 1407778276843371534,
  1401094763676202559, 1394410150925071257, 1387723835686884621, 1381035211072741964,
  1374343665770030531, 1367648583594317957, 1360949343030101844, 1354245316759430606,
  1347535871177359290, 1340820365893152122, 1334098153216083604, 1327368577624624679,
  1320630975217730096, 1313884673146868964, 1307128989027353860, 1300363230327433728,
  1293586693733517645, 1286798664489786415, 1279998415710333237, 1273185207661843732,
  1266358287014688333, 1259516886060144225, 1252660221891297887, 1245787495544997903,
  1238897891102027415, 1231990574742445110, 1225064693752808020, 1218119375481726552,
  1211153726239911244, 1204166830140560140, 1197157747875585931, 1190125515422801650,
  1183069142678760732, 1175987612011489825, 1168879876726833800, 1161744859441574240,
  1154581450355851802, 1147388505416733873, 1140164844363995789, 1132909248648336975,
  1125620459211294389, 1118297174115062909, 1110938046009249502, 1103541679420268151,
  1096106627847603487, 1088631390649514197, 1081114409698889389, 1073554065787871714,
  1065948674757506653, 1058296483326006454, 1050595664586207123, 1042844313139370538,
  1035040439828605274, 1027181966030751292, 1019266717460529215, 1011292417434978441,
  1003256679539591412, 995156999629943084, 986990747093846266, 978755155288937750,
  970447311058864615, 962064143217605250, 953602409875572654, 945058684462571130,
  936429340280896860, 927710533396234771, 918898183643734989, 909987953490768997,
  900975224455174528, 891855070726792376, 882622229578910122, 873271068082494550,
  863795545546826915, 854189171001560554, 844444954902423661, 834555354079518752,
  824512208745288633, 814306670128064347, 803929116982664893, 793369058833152785,
  782615023299588763, 771654424216739354, 760473406422083165, 749056662009581653,
  737387211425838629, 725446140901303549, 713212285182022732, 700661841097584448,
  687767892786257717, 674499822827436479, 660822574234205984, 646695714884388928,
  632072236375024632, 616896989996235545, 601104617743940417, 584616766093722262,
  567338257040473026, 549151702313026790, 529909720646495108, 509423329585933393,
  487443966121754335, 463634336771763245, 437518402186662658, 408389134588000746,
  375121332850465727, 335737519180459465, 286174591747260509, 215241895913273806, 0]

/-- Densities at the edges, up to a common factor. -/
def layerHeights : Array Nat := #[
  477467764586655, 1260285930498598, 2609072746106363, 4037972593371872, 5522403299264754,
  7050875471392110, 8616582769422917, 10214971439731100, 11842757857943104, 13497450601780807,
  15177088307982072, 16880083152595839, 18605121275783350, 20351096230109354, 22117062707379922,
  23902203305873237, 25705804008632656, 27527235669693315, 29365939758230111, 31221417192023690,
  33093219458688698, 34980941461833073, 36884215688691151, 38802707404656918, 40736110656078753,
  42684144916619378, 44646552251446536, 46623094902089664, 48613553216035145, 50617723861121788,
  52635418276973649, 54666461325077916, 56710690106399467, 58767952921137984, 60838108349751806,
  62921024437977854, 65016577971470438, 67124653828023989, 69245144397250269, 71377949059141965,
  73522973714240991, 75680130359194964, 77849336702372207, 80030515814947509, 82223595813495684,
  84428509570654661, 86645194450867782, 88873592068594229, 91113648066700734, 93365311913026619,
  95628536713353335, 97903279039215627, 100189498769172020, 102487158942306270, 104796225622867056,
  107116667775072880, 109448457147210021, 111791568164245583, 114145977828255210,
  116511665626037014, 118888613443345698, 121276805485235437, 123676228202051403,
  126086870220650349, 128508722280473636, 130941777174128166, 133386029692162844,
  135841476571757352, 138308116449064322, 140785949814968309, 143274978974047118,
  145775208006537926, 148286642733128721, 150809290682410169, 153343161060837674,
  155888264725064563, 158444614156520225, 161012223438117663, 163591108232982951,
  166181285765110071, 168782774801850333, 171395595638155623, 174019770082499359,
  176655321444406654, 179302274523530397, 181960655600216487, 184630492427504539,
  187311814224516926, 190004651671193070, 192709036904328807, 195425003514885592,
  198152586546538112, 200891822495431333, 203642749311121501, 206405406398679298,
  209179834621935651, 211966076307852941, 214764175252008499, 217574176725178370,
  220396127481011589, 223230075764789593, 226076071323264877, 228934165415577484,
  231804410825248525, 234686861873252689, 237581574432173676, 240488605941449107,
  243408015423711988, 246339863502238771, 249284212419516704, 252241126056943765,
  255210669955677150, 258192911338648023, 261187919133763713, 264195763998317568,
  267216518344631837, 270250256366959984, 273297054069675804, 276356989296781264,
  279430141762765316, 282516593084849388, 285616426816658109, 288729728483353931,
  291856585618280984, 294997087801162572, 298151326697901342, 301319396102034120,
  304501391977896274, 307697412505553769, 310907558127563710, 314131931597630143,
  317370638031222396, 320623784958230129, 323891482377732021, 327173842814958593,
  330470981380537099, 333783015832108509, 337110066638412809, 340452257045945450,
  343809713148291340, 347182563958251478, 350570941482881204, 353974980801569250,
  357394820147290515, 360830600991175754, 364282468130549597, 367750569780596226,
  371235057669821344, 374736087139491414, 378253817247238111, 381788410875031348,
  385340034841733958, 388908860020464597, 392495061461010764, 396098818517547080,
  399720314981931668, 403359739222868885, 407017284331247953, 410693148271983222,
  414387534042706784, 418100649839684591, 421832709231353298, 425583931339900579,
  429354541031341519, 433144769114574058, 436954852549929273, 440785034667769915,
  444635565397727750, 448506701509214067, 452398706863882505, 456311852680773566,
  460246417814923481, 464202689050278838, 468180961407822172, 472181538469883255,
  476204732721683788, 480250865911249714, 484320269428911598, 488413284707712059,
  492530263646148658, 496671569054796314, 500837575128482149, 505028667945828791,
  509245245998136142, 513487720749743026, 517756517232200619, 522052074674794864,
  526374847174186700, 530725304406193921, 535103932383019565, 539511234259544614,
  543947731192649941, 548413963257921133, 552910490428519918, 557437893621486324,
  561996775817277916, 566587763258951771, 571211506738074970, 575868682975210544,
  580559996103683473, 585286179266300333, 590047996335791969, 594846243770991268,
  599681752622167719, 604555390700549533, 609468064928895381, 614420723892076803,
  619414360609039205, 624450015550274240, 629528779928128279, 634651799290960050,
  639820277456438991, 645035480824251883, 650298743114294586, 655611470583224665,
  660975147780241357, 666391343912380640, 671861719900766374, 677388036222513090,
  682972161648791376, 688616083008527058, 694321916130032579, 700091918140490099,
  705928501336797409, 711834248882358467, 717811932634901395, 723864533472881599,
  729995264565802437, 736207598131266683, 742505296344636245, 748892447223726720,
  755373506511754500, 761953346841546475, 768637315803334831, 775431304986138326,
  782341832659861902, 789376143571198563, 796542330428254619, 803849483176389490,
  811307874318219935, 818929191609414797, 826726833952094231, 834716292992930375,
  842915653118441077, 851346258465123684, 860033621203008636, 869008688043793165,
  878309655816146839, 887984660763399880, 898095921906304051, 908726440060562912,
  919991505048360247, 932060075968990209, 945198953453078028, 959879091812415930,
  977101701282731328, 1000000000000000000]

end RegionSync.Random
